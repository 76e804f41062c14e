import Mediaops.Plan

namespace Mediaops.Plan

open Reclaim Walker

-- What the copies of a plan cost together, and which files they are of.

section Words

theorem saturatingSub_toNat {a b : UInt64} (h : b.toNat ≤ a.toNat) :
    (saturatingSub a b).toNat = a.toNat - b.toNat := by
  have hle : b ≤ a := UInt64.le_iff_toNat_le.mpr h
  rw [saturatingSub, if_pos hle, UInt64.toNat_sub_of_le _ _ hle]

theorem breachesFree_eq_false {minFree free fileLen : UInt64} :
    breachesFree minFree free fileLen = false ↔ minFree.toNat + fileLen.toNat ≤ free.toNat := by
  simp only [breachesFree, gt_iff_lt, Bool.or_eq_false_iff, decide_eq_false_iff_not,
    UInt64.lt_iff_toNat_lt]
  by_cases h : fileLen.toNat ≤ free.toNat
  · rw [saturatingSub_toNat h]
    omega
  · omega

end Words

section

variable [UnicodeTables]

def copies (actions : List Action) : List Copy := actions.filterMap Action.copied

def Copy.cost (copy : Copy) : Nat := copy.fileLen.toNat

def spent (actions : List Action) : Nat := Budget.total Copy.cost (copies actions)

theorem copies_append (left right : List Action) :
    copies (left ++ right) = copies left ++ copies right := List.filterMap_append ..

theorem copies_eq_nil {actions : List Action} (h : ∀ action ∈ actions, action.copied = none) :
    copies actions = [] := List.filterMap_eq_nil_iff.mpr h

section Budget

variable {minFree : UInt64} {pass : Pass} {candidate : Candidate}

theorem refusal_eq_none {fileLen : UInt64} : refusal minFree pass fileLen = none ↔
    fileLen.toNat ≤ pass.remainingCopy.toNat ∧
      minFree.toNat + fileLen.toNat ≤ pass.remainingFree.toNat := by
  rw [← breachesFree_eq_false, refusal]
  by_cases hcopy : fileLen > pass.remainingCopy
  · rw [if_pos hcopy]
    rw [gt_iff_lt, UInt64.lt_iff_toNat_lt] at hcopy
    simp only [reduceCtorEq, false_iff, not_and]
    omega
  · rw [if_neg hcopy]
    rw [gt_iff_lt, UInt64.lt_iff_toNat_lt] at hcopy
    have hle : fileLen.toNat ≤ pass.remainingCopy.toNat := by omega
    simp only [hle, true_and]
    cases breachesFree minFree pass.remainingFree fileLen <;> simp

-- A candidate is skipped, or fits both budgets and is taken.
theorem offer_cases (minFree : UInt64) (pass : Pass) (candidate : Candidate) :
    (∃ reason, offer minFree pass candidate = pass.skip candidate reason) ∨
      (refusal minFree pass candidate.copy.fileLen = none ∧
        offer minFree pass candidate = pass.take candidate) := by
  unfold offer
  split
  · exact .inl ⟨_, rfl⟩
  · split
    · exact .inl ⟨_, rfl⟩
    · next h => exact .inr ⟨h, rfl⟩

theorem copies_skip (pass : Pass) (candidate : Candidate) (reason : Text) :
    copies (pass.skip candidate reason).actions = copies pass.actions := by
  simp [Pass.skip, copies, Action.copied]

theorem copies_take (pass : Pass) (candidate : Candidate) :
    copies (pass.take candidate).actions = copies pass.actions ++ [candidate.copy] := by
  simp [Pass.take, copies, Action.copied]

theorem spent_take (pass : Pass) (candidate : Candidate) :
    spent (pass.take candidate).actions = spent pass.actions + candidate.copy.fileLen.toNat := by
  simp [spent, copies_take, Budget.total, Copy.cost]

-- What is left of both budgets, to the byte, and what copies leave free.
structure Spent (req : PlanRequest) (pass : Pass) : Prop where
  copy : pass.remainingCopy.toNat + spent pass.actions = req.desired.maxCopy.toNat
  free : pass.remainingFree.toNat + spent pass.actions = req.freeBytes.toNat
  floor : copies pass.actions ≠ [] → req.desired.minFree.toNat ≤ pass.remainingFree.toNat

variable {req : PlanRequest}

theorem Spent.skip (h : Spent req pass) (reason : Text) : Spent req (pass.skip candidate reason) := by
  constructor
  · rw [spent, copies_skip]
    exact h.copy
  · rw [spent, copies_skip]
    exact h.free
  · rw [copies_skip]
    exact h.floor

theorem Spent.take (h : Spent req pass)
    (hfits : refusal req.desired.minFree pass candidate.copy.fileLen = none) :
    Spent req (pass.take candidate) := by
  obtain ⟨hcopy, hfree⟩ := refusal_eq_none.mp hfits
  have hleft := saturatingSub_toNat hcopy
  have hroom : candidate.copy.fileLen.toNat ≤ pass.remainingFree.toNat := by omega
  have hfreeLeft := saturatingSub_toNat hroom
  have htotal := h.copy
  have hbytes := h.free
  constructor
  · rw [spent_take]
    simp only [Pass.take]
    omega
  · rw [spent_take]
    simp only [Pass.take]
    omega
  · intro _
    simp only [Pass.take]
    omega

theorem Spent.offers (h : Spent req pass) (offered : List Candidate) :
    Spent req (offered.foldl (offer req.desired.minFree) pass) := by
  induction offered generalizing pass with
  | nil => exact h
  | cons candidate rest ih =>
      refine ih ?_
      obtain ⟨reason, hskip⟩ | ⟨hfits, htake⟩ := offer_cases req.desired.minFree pass candidate
      · rw [hskip]
        exact h.skip reason
      · rw [htake]
        exact h.take hfits

theorem Spent.kindPass (h : Spent req pass) (all : List Candidate) (kind : TitleKind) :
    Spent req (kindPass req.desired.minFree all pass kind) := by
  have hstart : Spent req { pass with blocked := none } := ⟨h.copy, h.free, h.floor⟩
  exact hstart.offers _

theorem spent_budgetPass (req : PlanRequest) (all : List Candidate) :
    Spent req (budgetPass req all) := by
  have hstart : Spent req { remainingCopy := req.desired.maxCopy, remainingFree := req.freeBytes } :=
    ⟨by simp [spent, copies, Budget.total], by simp [spent, copies, Budget.total],
      fun h => absurd rfl h⟩
  exact ((hstart.kindPass all .Album).kindPass all .Movie).kindPass all .Series

-- What the offers took is in the order in which they were made.
theorem copies_offers (minFree : UInt64) (offered : List Candidate) (pass : Pass) :
    ∃ taken, taken.Sublist (offered.map Candidate.copy) ∧
      copies (offered.foldl (offer minFree) pass).actions = copies pass.actions ++ taken := by
  induction offered generalizing pass with
  | nil => exact ⟨[], .slnil, by simp⟩
  | cons candidate rest ih =>
      obtain ⟨taken, hsub, htaken⟩ := ih (offer minFree pass candidate)
      rw [List.foldl_cons, htaken]
      obtain ⟨reason, hskip⟩ | ⟨-, htake⟩ := offer_cases minFree pass candidate
      · refine ⟨taken, hsub.cons _, ?_⟩
        rw [hskip, copies_skip]
      · refine ⟨candidate.copy :: taken, hsub.cons_cons _, ?_⟩
        rw [htake, copies_take, List.append_assoc, List.singleton_append]

theorem copies_kindPass (minFree : UInt64) (all : List Candidate) (pass : Pass) (kind : TitleKind) :
    ∃ taken, taken.Sublist ((all.filter fun c => c.kind = kind).map Candidate.copy) ∧
      copies (kindPass minFree all pass kind).actions = copies pass.actions ++ taken :=
  copies_offers minFree _ { pass with blocked := none }

-- The order in which the three passes come to the candidates.
def passOrder (all : List Candidate) : List Candidate :=
  (all.filter fun c => c.kind = .Album) ++
    ((all.filter fun c => c.kind = .Movie) ++ all.filter fun c => c.kind = .Series)

theorem passOrder_perm (all : List Candidate) : (passOrder all).Perm all := by
  induction all with
  | nil => exact .refl _
  | cons candidate rest ih =>
      cases hkind : candidate.kind with
      | Album => simpa [passOrder, hkind] using ih
      | Movie =>
          have hmiddle : (passOrder (candidate :: rest)).Perm (candidate :: passOrder rest) := by
            simp [passOrder, hkind]
          exact hmiddle.trans (ih.cons candidate)
      | Series =>
          have hmiddle : (passOrder (candidate :: rest)).Perm (candidate :: passOrder rest) := by
            simp only [passOrder, hkind, List.filter_cons, decide_true, if_true, reduceCtorEq,
              decide_false, Bool.false_eq_true, if_false, ← List.append_assoc]
            exact List.perm_middle
          exact hmiddle.trans (ih.cons candidate)

theorem copies_budgetPass (req : PlanRequest) (all : List Candidate) :
    (copies (budgetPass req all).actions).Sublist ((passOrder all).map Candidate.copy) := by
  have hstart := copies_kindPass req.desired.minFree all
    { remainingCopy := req.desired.maxCopy, remainingFree := req.freeBytes } .Album
  obtain ⟨albums, halbums, hafter⟩ := hstart
  obtain ⟨movies, hmovies, hafter'⟩ := copies_kindPass req.desired.minFree all
    (kindPass req.desired.minFree all
      { remainingCopy := req.desired.maxCopy, remainingFree := req.freeBytes } .Album) .Movie
  obtain ⟨episodes, hepisodes, hafter''⟩ := copies_kindPass req.desired.minFree all
    (kindPass req.desired.minFree all (kindPass req.desired.minFree all
      { remainingCopy := req.desired.maxCopy, remainingFree := req.freeBytes } .Album) .Movie)
    .Series
  have hall : copies (budgetPass req all).actions = albums ++ (movies ++ episodes) := by
    rw [← List.append_assoc, budgetPass]
    simp only [List.foldl_cons, List.foldl_nil]
    rw [hafter'', hafter', hafter]
    rfl
  rw [hall, passOrder, List.map_append, List.map_append]
  exact halbums.append (hmovies.append hepisodes)

end Budget

section Gathered

variable {req : PlanRequest} {gather : Gather}

-- Why a candidate may be copied.
structure Eligible (req : PlanRequest) (candidate : Candidate) : Prop where
  fresh : candidate.copy.identity ∉ req.installed
  unheld : req.held candidate.copy.remote = true →
    ∃ item ∈ req.approved, item.remote = some candidate.copy.remote

structure Sound (req : PlanRequest) (gather : Gather) : Prop where
  nodup : (gather.candidates.map fun c => c.copy.identity).Nodup
  planned : ∀ c ∈ gather.candidates, c.copy.identity ∈ gather.plannedFiles
  each : ∀ c ∈ gather.candidates, Eligible req c
  idle : copies (gather.upgradeNever ++ gather.duplicates ++ gather.reviews) = []

theorem Sound.empty : Sound req {} :=
  ⟨List.nodup_nil, fun _ h => absurd h List.not_mem_nil, fun _ h => absurd h List.not_mem_nil, rfl⟩

theorem Sound.skip (h : Sound req gather) (identity : Identity) :
    Sound req (gather.skip identity) := by
  have hidle := h.idle
  simp only [copies_append, List.append_eq_nil_iff] at hidle
  obtain ⟨⟨hnever, hduplicates⟩, hreviews⟩ := hidle
  unfold Gather.skip
  split
  · refine ⟨h.nodup, h.planned, h.each, ?_⟩
    simp only [copies_append, hnever, hduplicates, hreviews]
    rfl
  · refine ⟨h.nodup, h.planned, h.each, ?_⟩
    simp only [copies_append, hnever, hduplicates, hreviews]
    rfl

theorem Sound.duplicate (h : Sound req gather) (identity : Identity) :
    Sound req (gather.duplicate identity) := by
  have hidle := h.idle
  simp only [copies_append, List.append_eq_nil_iff] at hidle
  obtain ⟨⟨hnever, hduplicates⟩, hreviews⟩ := hidle
  refine ⟨h.nodup, h.planned, h.each, ?_⟩
  simp only [Gather.duplicate, copies_append, hnever, hduplicates, hreviews]
  rfl

theorem Sound.review (h : Sound req gather) (remote : RemoteRef) (err : PathSchemaError) :
    Sound req (gather.review remote err) := by
  refine ⟨h.nodup, h.planned, h.each, ?_⟩
  have hidle := h.idle
  rw [copies_append, List.append_eq_nil_iff] at hidle
  simp only [Gather.review, ← List.append_assoc]
  rw [copies_append, copies_append, hidle.1, hidle.2]
  rfl

theorem Sound.plan (h : Sound req gather) (identity : Identity) :
    Sound req (gather.planned identity) :=
  ⟨h.nodup, fun c hc => List.mem_cons_of_mem _ (h.planned c hc), h.each, h.idle⟩

theorem Sound.push (h : Sound req gather) {candidate : Candidate} (heach : Eligible req candidate)
    (hnew : candidate.copy.identity ∉ gather.plannedFiles) :
    Sound req ((gather.planned candidate.copy.identity).push candidate) := by
  constructor
  · simp only [Gather.push, Gather.planned, List.map_append, List.map_cons, List.map_nil]
    refine List.nodup_append.mpr ⟨h.nodup, List.nodup_singleton _, ?_⟩
    intro identity hold other hother heq
    obtain ⟨c, hc, rfl⟩ := List.mem_map.mp hold
    rw [List.mem_singleton.mp hother] at heq
    exact hnew (heq ▸ h.planned c hc)
  · intro c hc
    rcases List.mem_append.mp hc with hc | hc
    · exact List.mem_cons_of_mem _ (h.planned c hc)
    · rw [List.mem_singleton.mp hc]
      exact List.mem_cons_self
  · intro c hc
    rcases List.mem_append.mp hc with hc | hc
    · exact h.each c hc
    · rw [List.mem_singleton.mp hc]
      exact heach
  · exact h.idle

theorem Sound.listEntry (h : Sound req gather) (indexed : RemoteEntry × Nat) :
    Sound req (listEntry req gather indexed) := by
  obtain ⟨entry, listingIndex⟩ := indexed
  unfold Plan.listEntry
  dsimp only
  by_cases hmedia : entry.len = 0 ∨ (!isMediaFile entry.ref.relPath) = true
  · rw [if_pos hmedia]
    exact h
  rw [if_neg hmedia]
  by_cases hheld : req.held entry.ref = true
  · rw [if_pos hheld]
    exact h
  rw [if_neg hheld]
  cases hclass : classifyRemote req.rootKinds entry with
  | error err => exact h.review entry.ref err
  | ok parsed =>
      obtain ⟨titleId, placement⟩ := parsed
      dsimp only
      by_cases hinstalled : (titleId, placement.fileKey) ∈ req.installed
      · rw [if_pos hinstalled]
        exact h.skip _
      rw [if_neg hinstalled]
      by_cases hplanned : (titleId, placement.fileKey) ∈ gather.plannedFiles
      · rw [if_pos hplanned]
        exact h.duplicate _
      rw [if_neg hplanned]
      exact h.push ⟨hinstalled, fun hother => absurd hother hheld⟩ hplanned

theorem Sound.approveItem (h : Sound req gather) {item : HoldLiveItem} (hitem : item ∈ req.approved)
    (offset : Nat) : Sound req (approveItem req gather (item, offset)) := by
  unfold Plan.approveItem
  dsimp only
  cases hremote : item.remote with
  | none => exact h
  | some remote =>
      cases item.placement with
      | none => exact h
      | some raw =>
          dsimp only
          cases PathSchema.renderPlacement (PathSchema.normalizePlacement raw) with
          | error err => exact h
          | ok path =>
              cases (PathSchema.normalizePlacement raw).keyTitleId with
              | error err => exact h
              | ok titleId =>
                  dsimp only
                  generalize PathSchema.normalizePlacement raw = placement
                  by_cases hinstalled : (titleId, placement.fileKey) ∈ req.installed
                  · rw [if_pos hinstalled]
                    exact h.skip _
                  rw [if_neg hinstalled]
                  by_cases hplanned : (titleId, placement.fileKey) ∈ gather.plannedFiles
                  · rw [if_pos hplanned]
                    exact h.duplicate _
                  rw [if_neg hplanned]
                  by_cases hlen : approvedLen req item remote = 0
                  · rw [if_pos hlen]
                    exact h.plan _
                  rw [if_neg hlen]
                  exact h.push ⟨hinstalled, fun _ => ⟨item, hitem, hremote⟩⟩ hplanned

theorem sound_gathered (req : PlanRequest) : Sound req (gathered req) := by
  unfold gathered
  refine List.foldlRecOn (motive := Sound req) _ _ ?_ ?_
  · exact List.foldlRecOn (motive := Sound req) _ _ Sound.empty
      fun gather h indexed _ => h.listEntry indexed
  · rintro gather h ⟨item, offset⟩ hmem
    exact h.approveItem (List.fst_mem_of_mem_zipIdx hmem) offset

theorem mem_candidates {candidate : Candidate} :
    candidate ∈ candidates req ↔ candidate ∈ (gathered req).candidates :=
  List.mem_insertionSort _

end Gathered

section Planned

variable (req : PlanRequest)

theorem copies_locked (h : req.desired.lock = true) : copies (copyActions req) = [] := by
  rw [copyActions, if_pos h]
  refine copies_eq_nil fun action haction => ?_
  obtain ⟨c, -, rfl⟩ := List.mem_map.mp haction
  rfl

theorem copies_copyActions :
    (copies (copyActions req)).Sublist ((passOrder (candidates req)).map Candidate.copy) := by
  by_cases hlock : req.desired.lock = true
  · rw [copies_locked req hlock]
    exact List.nil_sublist _
  · rw [copyActions, if_neg hlock]
    exact copies_budgetPass req _

theorem copies_unmonitor : copies (unmonitorActions req) = [] := by
  unfold unmonitorActions
  split
  · rfl
  · refine copies_eq_nil fun action haction => ?_
    obtain ⟨titleId, -, rfl⟩ := List.mem_map.mp haction
    rfl

-- Only the budget loop copies.
theorem copies_planActions : copies (planActions req).actions = copies (copyActions req) := by
  have hidle := (sound_gathered req).idle
  simp only [copies_append, List.append_eq_nil_iff] at hidle
  obtain ⟨⟨hnever, hduplicates⟩, hreviews⟩ := hidle
  have hedge : copies (if req.edgeFrozen then [.EdgeApply] else []) = [] := by
    split <;> rfl
  have hgrab : copies (if req.desired.grabber = .Servarr then [.GrabApply] else []) = [] := by
    split <;> rfl
  simp only [planActions, copies_append, hedge, hgrab, hnever, hduplicates, hreviews,
    copies_unmonitor, List.nil_append, List.append_nil]

theorem eligible_of_copied {copy : Copy} (h : copy ∈ copies (planActions req).actions) :
    ∃ candidate, candidate.copy = copy ∧ Eligible req candidate := by
  rw [copies_planActions] at h
  obtain ⟨candidate, hmem, rfl⟩ := List.mem_map.mp ((copies_copyActions req).subset h)
  have hcandidate := mem_candidates.mp ((passOrder_perm _).mem_iff.mp hmem)
  exact ⟨candidate, rfl, (sound_gathered req).each candidate hcandidate⟩

theorem nodup_copied : ((copies (planActions req).actions).map Copy.identity).Nodup := by
  have hperm : (passOrder (candidates req)).Perm (gathered req).candidates :=
    (passOrder_perm _).trans (List.perm_insertionSort _ _)
  have hnodup : (((passOrder (candidates req)).map Candidate.copy).map Copy.identity).Nodup := by
    rw [List.map_map]
    exact (hperm.map _).nodup_iff.mpr (sound_gathered req).nodup
  rw [copies_planActions]
  exact hnodup.sublist ((copies_copyActions req).map _)

theorem spent_copyActions : spent (copyActions req) ≤ req.desired.maxCopy.toNat ∧
    (copies (copyActions req) ≠ [] →
      req.desired.minFree.toNat + spent (copyActions req) ≤ req.freeBytes.toNat) := by
  by_cases hlock : req.desired.lock = true
  · rw [spent, copies_locked req hlock]
    exact ⟨Nat.zero_le _, fun h => absurd rfl h⟩
  · rw [copyActions, if_neg hlock]
    have h := spent_budgetPass req (candidates req)
    refine ⟨by have := h.copy; omega, fun hany => ?_⟩
    have hfloor := h.floor hany
    have hfree := h.free
    omega

-- Whatever is listed, held or approved, and of whatever size: the copies keep
-- both budgets to the byte, are of files the library does not have, one copy for
-- each file, and take no held remote without an approval of that remote.
theorem plan_copies :
    spent (planActions req).actions ≤ req.desired.maxCopy.toNat ∧
    (copies (planActions req).actions ≠ [] →
      req.desired.minFree.toNat + spent (planActions req).actions ≤ req.freeBytes.toNat) ∧
    (∀ copy ∈ copies (planActions req).actions,
      copy.identity ∉ req.diskIdentities ∧ copy.identity ∉ req.indexIdentities) ∧
    ((copies (planActions req).actions).map Copy.identity).Nodup ∧
    (∀ copy ∈ copies (planActions req).actions, ∀ hold ∈ req.holds, ∀ own,
      hold.remote = some own → own.key = copy.remote.key →
        ∃ item ∈ req.approved, ∃ named, item.remote = some named ∧ named.key = copy.remote.key) ∧
    (req.desired.lock = true → copies (planActions req).actions = []) := by
  have hbudget := spent_copyActions req
  rw [spent, ← copies_planActions] at hbudget
  refine ⟨hbudget.1, hbudget.2, fun copy hcopy => ?_, nodup_copied req, ?_, fun hlock => ?_⟩
  · obtain ⟨candidate, rfl, heligible⟩ := eligible_of_copied req hcopy
    have hfresh := heligible.fresh
    rw [PlanRequest.installed, List.mem_append, not_or] at hfresh
    exact hfresh
  · intro copy hcopy hold hhold own hown hkey
    obtain ⟨candidate, rfl, heligible⟩ := eligible_of_copied req hcopy
    have hheld : req.held candidate.copy.remote = true := by
      rw [PlanRequest.held, List.any_eq_true]
      refine ⟨hold, hhold, ?_⟩
      simp [hown, hkey]
    obtain ⟨item, hitem, hnamed⟩ := heligible.unheld hheld
    exact ⟨item, hitem, _, hnamed, rfl⟩
  · rw [copies_planActions]
    exact copies_locked req hlock

end Planned

end

namespace Sample

def remote : RemoteRef := ⟨"movies", "A.(2000)/A.(2000).mkv", by decide⟩

def req : @PlanRequest UnicodeTables.ascii :=
  @PlanRequest.mk UnicodeTables.ascii [{ ref := remote, len := 5, mtime := 0, nlink := 1 }]
    (fun _ => some .Movie) [] [] [] { maxCopy := 10, minFree := 20, lock := false, grabber := .None }
    30 false [] [] []

end Sample

theorem plan_copies_movie :
    let := UnicodeTables.ascii
    (copies (planActions Sample.req).actions).length = 1 ∧
      spent (planActions Sample.req).actions ≤ 10 ∧
      20 + spent (planActions Sample.req).actions ≤ 30 := by
  intro _
  have hcopied : (copies (planActions Sample.req).actions).length = 1 := by decide +kernel
  have hany : copies (planActions Sample.req).actions ≠ [] := by
    intro h
    rw [h] at hcopied
    cases hcopied
  have hbounds : Sample.req.desired.maxCopy.toNat = 10 ∧ Sample.req.desired.minFree.toNat = 20 ∧
      Sample.req.freeBytes.toNat = 30 := by decide
  obtain ⟨hmax, hfree, -⟩ := plan_copies Sample.req
  rw [hbounds.1] at hmax
  rw [hbounds.2.1, hbounds.2.2] at hfree
  exact ⟨hcopied, hmax, hfree hany⟩

end Mediaops.Plan
