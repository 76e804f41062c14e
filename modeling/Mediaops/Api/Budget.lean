import Mediaops.Api.JobLifecycle
import Mediaops.Library.Budget

namespace Mediaops.Api

-- The copy budget: what a bind checks, and what it keeps in every run.

section Words

theorem checkedAdd_some {a b c : UInt64} (h : checkedAdd a b = some c) :
    a.toNat + b.toNat < 2 ^ 64 ∧ c.toNat = a.toNat + b.toNat := by
  unfold checkedAdd at h
  by_cases hlt : a.toNat + b.toNat < 2 ^ 64
  · rw [if_pos hlt] at h
    cases h
    exact ⟨hlt, by rw [UInt64.toNat_add, Nat.mod_eq_of_lt hlt]⟩
  · rw [if_neg hlt] at h
    cases h

theorem checkedAdd_of_lt {a b : UInt64} (h : a.toNat + b.toNat < 2 ^ 64) :
    checkedAdd a b = some (a + b) := if_pos h

theorem toNat_add_of_lt {a b : UInt64} (h : a.toNat + b.toNat < 2 ^ 64) :
    (a + b).toNat = a.toNat + b.toNat := by
  rw [UInt64.toNat_add, Nat.mod_eq_of_lt h]

theorem pullFits_iff {free minFree maxCopy bound len : UInt64} :
    pullFits free minFree maxCopy bound len = true ↔
      bound.toNat + len.toNat < 2 ^ 64 ∧
        (0 < maxCopy.toNat → bound.toNat + len.toNat ≤ maxCopy.toNat) ∧
        bound.toNat + len.toNat + minFree.toNat ≤ free.toNat := by
  unfold pullFits
  by_cases hlt : bound.toNat + len.toNat < 2 ^ 64
  · rw [checkedAdd_of_lt hlt]
    have hsum := toNat_add_of_lt hlt
    have hle : bound + len ≤ free ↔ bound.toNat + len.toNat ≤ free.toNat := by
      rw [UInt64.le_iff_toNat_le, hsum]
    have hcopy : (0 < maxCopy ∧ maxCopy < bound + len) ↔
        0 < maxCopy.toNat ∧ maxCopy.toNat < bound.toNat + len.toNat := by
      rw [UInt64.lt_iff_toNat_lt, UInt64.lt_iff_toNat_lt, hsum]
      rfl
    dsimp only
    by_cases hover : 0 < maxCopy.toNat ∧ maxCopy.toNat < bound.toNat + len.toNat
    · rw [if_pos (hcopy.mpr hover)]
      constructor
      · intro h
        cases h
      · rintro ⟨-, hcap, -⟩
        have := hcap hover.1
        omega
    · rw [if_neg fun h => hover (hcopy.mp h)]
      by_cases hfree : bound.toNat + len.toNat ≤ free.toNat
      · rw [if_pos (hle.mpr hfree), decide_eq_true_eq, UInt64.le_iff_toNat_le,
          UInt64.toNat_sub_of_le _ _ (hle.mpr hfree), hsum]
        omega
      · rw [if_neg fun h => hfree (hle.mp h)]
        simp only [Bool.false_eq_true, false_iff]
        omega
  · have hnone : checkedAdd bound len = none := if_neg hlt
    rw [hnone]
    simp only [Bool.false_eq_true, false_iff]
    omega

end Words

-- The shares of the copy budget: the specs of bound Jobs that are not over.
def shares (jobs : List HomeObject) : List JobSpec := jobs.filterMap Admission.reservation

def shareCost (spec : JobSpec) : Nat := spec.fileLen.toNat
def shareLimit (spec : JobSpec) : Nat := spec.maxCopy.toNat

section Sums

open Budget (total)

theorem sumChecked_ok {overflow : HomeError} {sum result : UInt64} {lens : List UInt64}
    (h : Admission.sumChecked overflow sum lens = .ok result) :
    result.toNat = sum.toNat + total UInt64.toNat lens := by
  induction lens generalizing sum with
  | nil =>
      cases h
      simp [total]
  | cons len rest ih =>
      unfold Admission.sumChecked at h
      split at h
      · cases h
      next hadd =>
        have hnext := (checkedAdd_some hadd).2
        rw [ih h, Budget.total_cons]
        omega

-- The checked sum over a list of Jobs, in the terms of the budget.
theorem sumChecked_fileLens {overflow : HomeError} {result : UInt64} {specs : List JobSpec}
    (h : Admission.sumChecked overflow 0 (specs.map JobSpec.fileLen) = .ok result) :
    result.toNat = total shareCost specs := by
  have htotal := sumChecked_ok h
  rw [UInt64.toNat_zero, Nat.zero_add] at htotal
  rw [htotal, total, total, List.map_map]
  rfl

theorem sumChecked_of_lt (overflow : HomeError) {sum : UInt64} {lens : List UInt64}
    (h : sum.toNat + total UInt64.toNat lens < 2 ^ 64) :
    ∃ result, Admission.sumChecked overflow sum lens = .ok result := by
  induction lens generalizing sum with
  | nil => exact ⟨sum, rfl⟩
  | cons len rest ih =>
      rw [Budget.total_cons] at h
      have hlt : sum.toNat + len.toNat < 2 ^ 64 := by omega
      unfold Admission.sumChecked
      rw [checkedAdd_of_lt hlt]
      exact ih (by rw [toNat_add_of_lt hlt]; omega)

end Sums

theorem reservation_some {job : HomeObject} {spec : JobSpec}
    (h : Admission.reservation job = some spec) : job.spec = .Job spec ∧ spec.nodeName ≠ [] ∧
      ∃ status, job.status = .Job status ∧ status.phase.isTerminal = false := by
  unfold Admission.reservation at h
  split at h
  · next spec' status hspec hstatus =>
      by_cases hheld : spec'.nodeName ≠ [] ∧ (!status.phase.isTerminal) = true
      · rw [if_pos hheld] at h
        cases h
        exact ⟨hspec, hheld.1, status, hstatus, by simpa using hheld.2⟩
      · rw [if_neg hheld] at h
        cases h
  · cases h

theorem reservation_of_job {job : HomeObject} {spec : JobSpec} {status : JobStatus}
    (hspec : job.spec = .Job spec) (hstatus : job.status = .Job status) :
    Admission.reservation job =
      if spec.nodeName ≠ [] ∧ (!status.phase.isTerminal) = true then some spec else none := by
  unfold Admission.reservation
  rw [hspec, hstatus]

theorem reservation_unbound {job : HomeObject} {spec : JobSpec} (hspec : job.spec = .Job spec)
    (hnode : spec.nodeName = []) : Admission.reservation job = none := by
  cases h : Admission.reservation job with
  | none => rfl
  | some spec' =>
      obtain ⟨hspec', hnode', -⟩ := reservation_some h
      rw [hspec] at hspec'
      cases hspec'
      exact absurd hnode hnode'

theorem reservation_other {job : HomeObject} (hagrees : job.Agrees) (hkind : job.kind ≠ .Job) :
    Admission.reservation job = none := by
  cases h : Admission.reservation job with
  | none => rfl
  | some spec => exact absurd (Agrees.job_of_spec hagrees (reservation_some h).1) hkind

theorem pull_nodeName_ne : WorkerKind.Pull.nodeName ≠ [] := by decide

theorem reservation_over {job : HomeObject} {status : JobStatus} (hstatus : job.status = .Job status)
    (hover : status.phase.isTerminal = true) : Admission.reservation job = none := by
  cases h : Admission.reservation job with
  | none => rfl
  | some spec =>
      obtain ⟨-, -, status', hstatus', hopen⟩ := reservation_some h
      rw [hstatus] at hstatus'
      cases hstatus'
      rw [hover] at hopen
      cases hopen

-- The shares before and after a write differ in the written row only.
def otherShares (s : Store) (ev : StoreEvent) : List JobSpec :=
  shares (Table.erase HomeObject.key ev.object.key s.objects)

theorem shares_perm {jobs jobs' : List HomeObject} (h : jobs.Perm jobs') :
    (shares jobs).Perm (shares jobs') := h.filterMap _

theorem shares_cons (job : HomeObject) (jobs : List HomeObject) :
    shares (job :: jobs) = (Admission.reservation job).toList ++ shares jobs := by
  unfold shares
  rw [List.filterMap_cons]
  cases Admission.reservation job <;> rfl

theorem shares_before {s : Store} (hs : Store.Sound s) (ev : StoreEvent) {old : HomeObject}
    (hold : old ∈ s.objects) (hkey : old.key = ev.object.key) :
    (shares s.objects).Perm ((Admission.reservation old).toList ++ otherShares s ev) := by
  have hperm := shares_perm (Table.perm_cons_erase hs.keyed hold)
  rwa [shares_cons, hkey] at hperm

theorem shares_after {s : Store} (hs : Store.Sound s) (ev : StoreEvent)
    (hkept : ev.watch ≠ .Deleted) :
    (shares (s.write ev).objects).Perm
      ((Admission.reservation ev.object).toList ++ otherShares s ev) := by
  have hperm := shares_perm (Table.perm_upsert_cons hs.keyed ev.object)
  rw [shares_cons] at hperm
  obtain ⟨watch, obj⟩ := ev
  cases watch with
  | Deleted => exact absurd rfl hkept
  | Added => exact hperm
  | Modified => exact hperm

-- A created row adds its own share to those of the others.
theorem shares_created {s : Store} {ev : StoreEvent} (habsent : s.get ev.object.kind
    ev.object.metadata.name = none) : otherShares s ev = shares s.objects := by
  have herase : Table.erase HomeObject.key ev.object.key s.objects = s.objects :=
    Table.erase_eq_self fun row hrow => Table.lookup_none habsent hrow
  rw [otherShares, herase]

theorem list_perm_jobs {s : Store} (ht : Typed s) :
    (shares (s.list (some .Job))).Perm (shares s.objects) := by
  refine (shares_perm (List.perm_insertionSort _ _)).trans (.of_eq ?_)
  unfold shares
  rw [List.filterMap_filter]
  refine List.filterMap_congr fun obj hobj => ?_
  by_cases hkind : obj.kind = .Job
  · simp [Store.ofKind, hkind]
  · rw [reservation_other (ht.agrees obj hobj) hkind]
    simp

-- Bound Jobs were admitted one after the other within the limit of each.
def Budgeted (s : Store) : Prop := Budget.Admitted shareCost shareLimit (shares s.objects)

-- A rewritten row keeps its share or gives it back.
theorem Budgeted.rewrite {s : Store} (h : Budgeted s) (hs : Store.Sound s) {ev : StoreEvent}
    {old : HomeObject} (hold : old ∈ s.objects) (hkey : old.key = ev.object.key)
    (hkept : ev.watch ≠ .Deleted) (hshare : Admission.reservation ev.object =
      Admission.reservation old ∨ Admission.reservation ev.object = none) :
    Budgeted (s.write ev) := by
  have hbefore := h.perm (shares_before hs ev hold hkey)
  refine Budget.Admitted.perm ?_ (shares_after hs ev hkept).symm
  rcases hshare with hsame | hnone
  · rwa [hsame]
  · rw [hnone]
    cases hheld : Admission.reservation old with
    | none => rwa [hheld] at hbefore
    | some spec =>
        rw [hheld] at hbefore
        exact hbefore.release

-- A row without a share gets one that fits.
theorem Budgeted.grant {s : Store} (h : Budgeted s) (hs : Store.Sound s) {ev : StoreEvent}
    {old : HomeObject} (hold : old ∈ s.objects) (hkey : old.key = ev.object.key)
    (hkept : ev.watch ≠ .Deleted) (hnone : Admission.reservation old = none) {spec : JobSpec}
    (hshare : Admission.reservation ev.object = some spec)
    (hfits : 0 < shareLimit spec →
      shareCost spec + Budget.total shareCost (shares s.objects) ≤ shareLimit spec) :
    Budgeted (s.write ev) := by
  have hbefore := shares_before hs ev hold hkey
  rw [hnone] at hbefore
  refine Budget.Admitted.perm ?_ (shares_after hs ev hkept).symm
  rw [hshare]
  refine (h.perm hbefore).grant fun hlimit => ?_
  rw [← Budget.total_perm hbefore]
  exact hfits hlimit

theorem Budgeted.remove {s : Store} (h : Budgeted s) (hs : Store.Sound s) {obj old : HomeObject}
    (hold : old ∈ s.objects) (hkey : old.key = obj.key)
    (hnone : Admission.reservation old = none) : Budgeted (s.write ⟨.Deleted, obj⟩) := by
  have hbefore := h.perm (shares_before hs ⟨.Deleted, obj⟩ hold hkey)
  rwa [hnone] at hbefore

theorem Budgeted.create {s : Store} (h : Budgeted s) (hs : Store.Sound s) {ev : StoreEvent}
    (habsent : s.get ev.object.kind ev.object.metadata.name = none) (hkept : ev.watch ≠ .Deleted)
    (hnone : Admission.reservation ev.object = none) : Budgeted (s.write ev) := by
  refine Budget.Admitted.perm ?_ (shares_after hs ev hkept).symm
  rw [hnone, shares_created habsent]
  exact h

section

variable [UnicodeTables]

theorem bindBudget_fits {disk : Disk} {jobs : List HomeObject} {spec : JobSpec}
    (h : Admission.bindBudget disk jobs spec = .ok ()) (hlimit : 0 < shareLimit spec) :
    shareCost spec + Budget.total shareCost (shares jobs) ≤ shareLimit spec := by
  obtain ⟨reserved, hsum, h₁⟩ := Checks.bind_ok h
  obtain ⟨free, -, h₂⟩ := Checks.bind_ok h₁
  obtain ⟨remaining, -, h₃⟩ := Checks.bind_ok h₂
  obtain ⟨onDisk, -, h₄⟩ := Checks.bind_ok h₃
  obtain ⟨hfits, -⟩ := Checks.guard_ok h₄
  have hcap : reserved.toNat + shareCost spec ≤ shareLimit spec :=
    (pullFits_iff.mp (by simpa using hfits)).2.1 hlimit
  have htotal : reserved.toNat = Budget.total shareCost (shares jobs) := sumChecked_fileLens hsum
  omega

theorem budgeted_jobWrite {s : Store} {ev : StoreEvent} (hs : Store.Sound s) (ht : Typed s)
    (hbudget : Budgeted s) (h : JobWrite s ev) : Budgeted (s.write ev) := by
  cases h with
  | Created name spec habsent hvalid hnode =>
      exact hbudget.create hs habsent WatchType.noConfusion (reservation_unbound rfl hnode)
  | Reapplied old hold => exact hbudget.rewrite hs hold rfl WatchType.noConfusion (.inl rfl)
  | Reported old spec before after hold hkind hspec hbefore _ hadmitted =>
      refine hbudget.rewrite hs hold rfl WatchType.noConfusion ?_
      by_cases hover : after.phase.isTerminal = true
      · exact .inr (reservation_over rfl hover)
      · have hnext : Admission.reservation (rewritten s { old with status := .Job after }) = _ :=
          reservation_of_job hspec rfl
        refine .inl (hnext.trans ?_)
        rw [reservation_of_job hspec hbefore]
        simp [hadmitted.open_, hover]
  | Bound old spec worker status disk hold hkind hspec hstatus hadmitted =>
      have hpending : (!status.phase.isTerminal) = true := by
        rw [hadmitted.pending]
        rfl
      have hshare : Admission.reservation (boundRow s old spec) = some (boundSpec spec) :=
        Eq.trans (reservation_of_job rfl hstatus) (if_pos ⟨pull_nodeName_ne, hpending⟩)
      refine hbudget.grant hs hold rfl WatchType.noConfusion
        (reservation_unbound hspec hadmitted.unbound) hshare fun hlimit => ?_
      have hfits := bindBudget_fits hadmitted.budget hlimit
      rwa [Budget.total_perm (list_perm_jobs ht)] at hfits
  | Refused old spec before message hold hkind hspec hbefore hnode =>
      exact hbudget.rewrite hs hold rfl WatchType.noConfusion
        (.inr (reservation_unbound hspec hnode))
  | Deleted old hold hkind hfree => exact hbudget.remove hs hold rfl hfree

theorem budgeted_write {s : Store} {ev : StoreEvent} (hs : Store.Sound s) (ht : Typed s)
    (hbudget : Budgeted s) (hw : Write s ev) : Budgeted (s.write ev) := by
  by_cases hkind : ev.object.kind = .Job
  · exact budgeted_jobWrite hs ht hbudget (hw.job hkind)
  · -- A row of another kind holds no share, neither before nor after.
    have hnone : Admission.reservation ev.object = none := reservation_other (hw.typed ht).1 hkind
    cases hw.change hs with
    | Create hc => exact hbudget.create hs hc.absent (by rw [hc.watch]; decide) hnone
    | Update prev hc =>
        exact hbudget.rewrite hs (Store.get_mem hc.found) (Store.get_key hc.found)
          (by rw [hc.watch]; decide) (.inr hnone)
    | Remove prev hc =>
        have hmem := Store.get_mem hc.found
        have hkey := Store.get_key hc.found
        have hprev : prev.kind = ev.object.kind := congrArg Prod.fst hkey
        have hfree := reservation_other (ht.agrees prev hmem) (hprev ▸ hkind)
        obtain ⟨watch, obj⟩ := ev
        obtain rfl := hc.watch
        exact hbudget.remove hs hmem hkey hfree

theorem Run.budgeted {s : Store} {past : List Store} (run : Run (s :: past)) : Budgeted s :=
  run.trail_invariant (P := Budgeted) ⟨[], .refl _, trivial⟩
    fun _ _ hs ht hbudget hw => budgeted_write hs ht hbudget hw

end

end Mediaops.Api
