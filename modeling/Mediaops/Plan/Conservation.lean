import Mediaops.Plan.Sources

namespace Mediaops.Plan

-- No file the planner looks at is lost: what each source reports, and which source
-- stands for the others of its file.

open Reclaim Walker

section

variable [UnicodeTables]

def Action.ofFile : Action → Bool
  | Copy _ | Skip _ _ | Review _ _ => true
  | _ => false

-- The candidates in the order of the copy actions, one action for each.
def order (req : PlanRequest) : List Candidate :=
  if req.desired.lock then candidates req else passOrder (candidates req)

def verdictAt (k : Nat) (verdict : Candidate × Action) : Option Action :=
  if verdict.1.listingIndex = k then some verdict.2 else none

-- The copy actions for the candidate of a source.
def verdicts (req : PlanRequest) (k : Nat) : List Action :=
  ((order req).zip (copyActions req)).filterMap (verdictAt k)

-- What the step of a source appends to the plan.
def notes (req : PlanRequest) (k : Nat) : List Action :=
  match (sources req)[k]? with
  | none => []
  | some source => (settle req (gatherTo req k) source k).note (gatherTo req k)

-- The actions that come from one source: its own, and that for its candidate.
def reports (req : PlanRequest) (k : Nat) : List Action := notes req k ++ verdicts req k

def lockOrBudget : List Text := [skipLock, skipMaxCopy, skipWatermark]

-- Copied, or skipped for the lock or a budget.
def Decided (copy : Copy) (action : Action) : Prop :=
  action = .Copy copy ∨ ∃ reason ∈ lockOrBudget, action = .Skip (some copy.titleId) reason

section Verdicts

variable {req : PlanRequest}

theorem refusal_mem {minFree : UInt64} {pass : Pass} {fileLen : UInt64} {reason : Text}
    (h : refusal minFree pass fileLen = some reason) : reason ∈ lockOrBudget := by
  unfold refusal at h
  split at h
  · cases h
    simp [lockOrBudget]
  · split at h
    · cases h
      simp [lockOrBudget]
    · cases h

-- One more action for each candidate offered, and it decides the candidate.
theorem offer_decides (minFree : UInt64) (pass : Pass) (candidate : Candidate)
    (hblocked : ∀ reason, pass.blocked = some reason → reason ∈ lockOrBudget) :
    ∃ action, (offer minFree pass candidate).actions = pass.actions ++ [action] ∧
      Decided candidate.copy action ∧
      ∀ reason, (offer minFree pass candidate).blocked = some reason → reason ∈ lockOrBudget := by
  unfold offer
  split
  · next reason hreason =>
      have hmem := hblocked reason hreason
      refine ⟨_, rfl, .inr ⟨reason, hmem, rfl⟩, fun other hother => ?_⟩
      cases hother
      exact hmem
  · next hopen =>
      split
      · next reason hreason =>
          have hmem := refusal_mem hreason
          refine ⟨_, rfl, .inr ⟨reason, hmem, rfl⟩, fun other hother => ?_⟩
          cases hother
          exact hmem
      · refine ⟨_, rfl, .inl rfl, fun other hother => ?_⟩
        rw [Pass.take, hopen] at hother
        cases hother

theorem offers_decide (minFree : UInt64) (offered : List Candidate) (pass : Pass)
    (hblocked : ∀ reason, pass.blocked = some reason → reason ∈ lockOrBudget) :
    ∃ actions, (offered.foldl (offer minFree) pass).actions = pass.actions ++ actions ∧
      List.Forall₂ (fun candidate action => Decided candidate.copy action) offered actions := by
  induction offered generalizing pass with
  | nil => exact ⟨[], by simp, .nil⟩
  | cons candidate rest ih =>
      obtain ⟨action, hactions, hdecided, hblocked'⟩ := offer_decides minFree pass candidate hblocked
      obtain ⟨actions, hrest, hall⟩ := ih (offer minFree pass candidate) hblocked'
      refine ⟨action :: actions, ?_, .cons hdecided hall⟩
      rw [List.foldl_cons, hrest, hactions, List.append_assoc, List.singleton_append]

theorem kindPass_decides (minFree : UInt64) (all : List Candidate) (pass : Pass) (kind : TitleKind) :
    ∃ actions, (kindPass minFree all pass kind).actions = pass.actions ++ actions ∧
      List.Forall₂ (fun candidate action => Decided candidate.copy action)
        (all.filter fun c => c.kind = kind) actions :=
  offers_decide minFree _ { pass with blocked := none } fun _ h => by cases h

theorem order_decided (req : PlanRequest) :
    List.Forall₂ (fun candidate action => Decided candidate.copy action) (order req)
      (copyActions req) := by
  unfold order copyActions
  by_cases hlock : req.desired.lock = true
  · rw [if_pos hlock, if_pos hlock, List.forall₂_map_right_iff]
    exact List.forall₂_same.mpr fun c _ => .inr ⟨skipLock, by simp [lockOrBudget], rfl⟩
  · rw [if_neg hlock, if_neg hlock]
    generalize candidates req = all
    unfold budgetPass passOrder
    simp only [List.foldl_cons, List.foldl_nil]
    obtain ⟨albums, halbums, hall⟩ := kindPass_decides req.desired.minFree all
      { remainingCopy := req.desired.maxCopy, remainingFree := req.freeBytes } .Album
    obtain ⟨movies, hmovies, hall'⟩ := kindPass_decides req.desired.minFree all
      (kindPass req.desired.minFree all
        { remainingCopy := req.desired.maxCopy, remainingFree := req.freeBytes } .Album) .Movie
    obtain ⟨episodes, hepisodes, hall''⟩ := kindPass_decides req.desired.minFree all
      (kindPass req.desired.minFree all (kindPass req.desired.minFree all
        { remainingCopy := req.desired.maxCopy, remainingFree := req.freeBytes } .Album) .Movie)
      .Series
    rw [hepisodes, hmovies, halbums, List.nil_append, List.append_assoc]
    exact List.rel_append hall (List.rel_append hall' hall'')

theorem order_perm (req : PlanRequest) : (order req).Perm (gathered req).candidates := by
  unfold order
  split
  · exact List.perm_insertionSort _ _
  · exact (passOrder_perm _).trans (List.perm_insertionSort _ _)

theorem verdictAt_same (candidate : Candidate) (action : Action) :
    verdictAt candidate.listingIndex (candidate, action) = some action := if_pos rfl

theorem verdictAt_other {candidate : Candidate} {k : Nat} (h : candidate.listingIndex ≠ k)
    (action : Action) : verdictAt k (candidate, action) = none := if_neg h

-- Of a list of verdicts, those for one place.
theorem verdictAt_none {order : List Candidate} {actions : List Action} {k : Nat}
    (h : ∀ candidate ∈ order, candidate.listingIndex ≠ k) :
    (order.zip actions).filterMap (verdictAt k) = [] := by
  refine List.filterMap_eq_nil_iff.mpr fun verdict hverdict => ?_
  exact verdictAt_other (h verdict.1 (List.of_mem_zip hverdict).1) verdict.2

theorem verdictAt_one {order : List Candidate} {actions : List Action}
    (hall : List.Forall₂ (fun candidate action => Decided candidate.copy action) order actions)
    (hplaces : (order.map Candidate.listingIndex).Nodup) {candidate : Candidate}
    (hmem : candidate ∈ order) :
    ∃ action, (order.zip actions).filterMap (verdictAt candidate.listingIndex) = [action] ∧
      Decided candidate.copy action := by
  induction hall with
  | nil => cases hmem
  | @cons head action rest actions hdecided _ ih =>
      obtain ⟨hnew, hrest⟩ := List.nodup_cons.mp hplaces
      rw [List.zip_cons_cons]
      rcases List.mem_cons.mp hmem with rfl | hmem
      · refine ⟨action, ?_, hdecided⟩
        rw [List.filterMap_cons_some (verdictAt_same _ _), verdictAt_none]
        intro other hother hplace
        exact hnew (hplace ▸ List.mem_map_of_mem hother)
      · have hne : head.listingIndex ≠ candidate.listingIndex := by
          intro hplace
          exact hnew (hplace ▸ List.mem_map_of_mem hmem)
        rw [List.filterMap_cons_none (verdictAt_other hne action)]
        exact ih hrest hmem

-- Sorted by place, no verdict is lost or told twice.
theorem verdictAt_all {verdicts : List (Candidate × Action)} {n : Nat}
    (h : ∀ verdict ∈ verdicts, verdict.1.listingIndex < n) :
    ((List.range n).flatMap fun k => verdicts.filterMap (verdictAt k)).Perm
      (verdicts.map Prod.snd) := by
  induction verdicts with
  | nil => simp
  | cons verdict rest ih =>
      have hplace := h verdict List.mem_cons_self
      have hrest := ih fun other hother => h other (List.mem_cons_of_mem _ hother)
      have hsplit : ∀ k, (verdict :: rest).filterMap (verdictAt k) =
          (verdictAt k verdict).toList ++ rest.filterMap (verdictAt k) := by
        intro k
        rw [List.filterMap_cons]
        cases verdictAt k verdict <;> rfl
      have hhead : ((List.range n).flatMap fun k => (verdictAt k verdict).toList) =
          [verdict.2] := by
        have hone : ∀ k ∈ List.range n, (verdictAt k verdict).toList =
            if k = verdict.1.listingIndex then [verdict.2] else [] := by
          intro k _
          unfold verdictAt
          by_cases hk : k = verdict.1.listingIndex
          · rw [if_pos hk.symm, if_pos hk, Option.toList_some]
          · rw [if_neg fun h => hk h.symm, if_neg hk, Option.toList_none]
        rw [List.flatMap_congr hone]
        clear hone hsplit hrest ih h
        induction n with
        | zero => cases hplace
        | succ n ih =>
            rw [List.range_succ, List.flatMap_append]
            by_cases hlast : n = verdict.1.listingIndex
            · have hnone : ∀ k ∈ List.range n,
                  (if k = verdict.1.listingIndex then [verdict.2] else []) = [] := by
                intro k hk
                rw [if_neg]
                have := List.mem_range.mp hk
                omega
              rw [List.flatMap_eq_nil_iff.mpr hnone]
              simp [hlast]
            · rw [ih (by omega)]
              simp [hlast]
      simp only [hsplit]
      refine (List.flatMap_append_perm _ _ _).symm.trans ?_
      rw [hhead, List.map_cons]
      exact hrest.cons verdict.2

end Verdicts

section Gathering

variable {req : PlanRequest} {gather : Gather}

def Outcome.taken : Outcome → Option Candidate
  | Taken candidate => some candidate
  | _ => none

def Outcome.files : Outcome → List Identity
  | Emptied identity => [identity]
  | Taken candidate => [candidate.copy.identity]
  | _ => []

theorem record_candidates (gather : Gather) (outcome : Outcome) :
    (outcome.record gather).candidates = gather.candidates ++ outcome.taken.toList := by
  cases outcome with
  | Installed identity =>
      simp only [Outcome.record, Gather.skip, Outcome.taken, Option.toList_none, List.append_nil]
      split <;> rfl
  | Taken candidate => rfl
  | Ignored | Refused | Duplicate | Emptied =>
      simp [Outcome.record, Gather.review, Gather.duplicate, Gather.planned, Outcome.taken]

theorem record_files (gather : Gather) (outcome : Outcome) :
    (outcome.record gather).plannedFiles = outcome.files ++ gather.plannedFiles := by
  cases outcome with
  | Installed identity =>
      simp only [Outcome.record, Gather.skip, Outcome.files, List.nil_append]
      split <;> rfl
  | Taken candidate => rfl
  | Ignored | Refused | Duplicate | Emptied => rfl

def Gather.noted (gather : Gather) : List Action :=
  gather.upgradeNever ++ gather.duplicates ++ gather.reviews

theorem record_noted (gather : Gather) (outcome : Outcome) :
    (outcome.record gather).noted.Perm (gather.noted ++ outcome.note gather) := by
  have hmiddle : ∀ (left middle right : List Action) (action : Action),
      (left ++ (middle ++ [action]) ++ right).Perm (left ++ middle ++ right ++ [action]) := by
    intro left middle right action
    simp only [List.append_assoc]
    exact (List.perm_append_comm.append_left middle).append_left left
  have hfirst : ∀ (left middle right : List Action) (action : Action),
      (left ++ [action] ++ middle ++ right).Perm (left ++ middle ++ right ++ [action]) := by
    intro left middle right action
    simp only [List.append_assoc]
    refine List.Perm.append_left left ?_
    rw [← List.append_assoc middle]
    exact List.perm_append_comm
  cases outcome with
  | Installed identity =>
      by_cases hskipped : identity ∈ gather.skippedFiles
      · simp only [Outcome.record, Outcome.note, Gather.skip, Gather.noted, if_pos hskipped]
        exact hmiddle _ _ _ _
      · simp only [Outcome.record, Outcome.note, Gather.skip, Gather.noted, if_neg hskipped]
        exact hfirst _ _ _ _
  | Duplicate identity => exact hmiddle _ _ _ _
  | Refused remote err =>
      simp [Outcome.record, Outcome.note, Gather.review, Gather.noted]
  | Ignored | Emptied | Taken =>
      simp [Outcome.record, Outcome.note, Gather.noted, Gather.planned, Gather.push]

-- The source of a place names a file.
def Names (req : PlanRequest) (k : Nat) (copy : Copy) : Prop :=
  ∃ source, (sources req)[k]? = some source ∧ source.named req = some (.ok copy)

theorem Names.lt {k : Nat} {copy : Copy} (h : Names req k copy) : k < (sources req).length := by
  obtain ⟨source, hsource, -⟩ := h
  exact (List.getElem?_eq_some_iff.mp hsource).1

theorem Names.eq {k : Nat} {copy copy' : Copy} (h : Names req k copy) (h' : Names req k copy') :
    copy = copy' := by
  obtain ⟨source, hsource, hnamed⟩ := h
  obtain ⟨source', hsource', hnamed'⟩ := h'
  rw [hsource] at hsource'
  cases hsource'
  rw [hnamed] at hnamed'
  cases hnamed'
  rfl

-- The one step that a source is settled by, case by case.
theorem files_settle {source : Source} {k : Nat} {identity : Identity} :
    identity ∈ (settle req gather source k).files ↔
      ∃ copy, source.named req = some (.ok copy) ∧ copy.identity = identity ∧
        identity ∉ req.installed ∧ identity ∉ gather.plannedFiles := by
  cases hnamed : source.named req with
  | none =>
      rw [settle_ignored hnamed]
      simp [Outcome.files]
  | some result =>
      cases result with
      | error failure =>
          obtain ⟨remote, err⟩ := failure
          rw [settle_refused hnamed]
          simp [Outcome.files]
      | ok copy =>
          have hcopy : ∀ copy' : Copy,
              (some (Except.ok copy) : Option (Except (RemoteRef × PathSchemaError) Copy)) =
                some (.ok copy') ↔ copy = copy' := by
            intro copy'
            simp
          by_cases hinstalled : copy.identity ∈ req.installed
          · rw [settle_installed hnamed hinstalled]
            simp only [Outcome.files, List.not_mem_nil, false_iff]
            rintro ⟨copy', hsame, rfl, hfresh, -⟩
            exact hfresh ((hcopy copy').mp hsame ▸ hinstalled)
          by_cases hplanned : copy.identity ∈ gather.plannedFiles
          · rw [settle_duplicate hnamed hinstalled hplanned]
            simp only [Outcome.files, List.not_mem_nil, false_iff]
            rintro ⟨copy', hsame, rfl, -, hnew⟩
            exact hnew ((hcopy copy').mp hsame ▸ hplanned)
          by_cases hlen : copy.fileLen = 0
          · rw [settle_emptied hnamed hinstalled hplanned hlen]
            simp only [Outcome.files, List.mem_singleton]
            constructor
            · rintro rfl
              exact ⟨copy, rfl, rfl, hinstalled, hplanned⟩
            · rintro ⟨copy', hsame, rfl, -, -⟩
              rw [(hcopy copy').mp hsame]
          · rw [settle_taken hnamed hinstalled hplanned hlen]
            simp only [Outcome.files, List.mem_singleton]
            constructor
            · rintro rfl
              exact ⟨copy, rfl, rfl, hinstalled, hplanned⟩
            · rintro ⟨copy', hsame, rfl, -, -⟩
              rw [← (hcopy copy').mp hsame]
              rfl

theorem taken_settle {source : Source} {k : Nat} {candidate : Candidate}
    (h : (settle req gather source k).taken = some candidate) :
    ∃ copy, source.named req = some (.ok copy) ∧ candidate = candidateOf req source copy k ∧
      copy.identity ∉ req.installed ∧ copy.identity ∉ gather.plannedFiles ∧ copy.fileLen ≠ 0 := by
  cases hnamed : source.named req with
  | none =>
      rw [settle_ignored hnamed] at h
      cases h
  | some result =>
      cases result with
      | error failure =>
          obtain ⟨remote, err⟩ := failure
          rw [settle_refused hnamed] at h
          cases h
      | ok copy =>
          by_cases hinstalled : copy.identity ∈ req.installed
          · rw [settle_installed hnamed hinstalled] at h
            cases h
          by_cases hplanned : copy.identity ∈ gather.plannedFiles
          · rw [settle_duplicate hnamed hinstalled hplanned] at h
            cases h
          by_cases hlen : copy.fileLen = 0
          · rw [settle_emptied hnamed hinstalled hplanned hlen] at h
            cases h
          · rw [settle_taken hnamed hinstalled hplanned hlen] at h
            cases h
            exact ⟨copy, rfl, rfl, hinstalled, hplanned, hlen⟩

-- The files that are planned after the first sources: those they name and the
-- library does not have.
theorem planned_iff {k : Nat} (hk : k ≤ (sources req).length) {identity : Identity} :
    identity ∈ (gatherTo req k).plannedFiles ↔ identity ∉ req.installed ∧
      ∃ j, j < k ∧ ∃ copy, Names req j copy ∧ copy.identity = identity := by
  induction k with
  | zero => simp [gatherTo]
  | succ k ih =>
      have hlt : k < (sources req).length := hk
      have hsource := List.getElem?_eq_getElem hlt
      have ih := ih (Nat.le_of_lt hlt)
      rw [gatherTo_succ hsource, step, record_files, List.mem_append, files_settle, ih]
      constructor
      · rintro (⟨copy, hnamed, hsame, hfresh, -⟩ | ⟨hfresh, j, hj, hcopy⟩)
        · exact ⟨hfresh, k, Nat.lt_succ_self k, copy, ⟨_, hsource, hnamed⟩, hsame⟩
        · exact ⟨hfresh, j, Nat.lt_succ_of_lt hj, hcopy⟩
      · rintro ⟨hfresh, j, hj, copy, hcopy, hsame⟩
        rcases Nat.lt_succ_iff_lt_or_eq.mp hj with hj | rfl
        · exact .inr ⟨hfresh, j, hj, copy, hcopy, hsame⟩
        · by_cases hbefore : ∃ i, i < j ∧ ∃ copy, Names req i copy ∧ copy.identity = identity
          · exact .inr ⟨hfresh, hbefore⟩
          · obtain ⟨source, hsource', hnamed⟩ := hcopy
            rw [hsource] at hsource'
            cases hsource'
            exact .inl ⟨copy, hnamed, hsame, hfresh, fun h => hbefore h.2⟩

-- The candidates after the first sources: each from a place of its own.
theorem candidates_to {k : Nat} (hk : k ≤ (sources req).length) :
    ((gatherTo req k).candidates.map Candidate.listingIndex).Nodup ∧
    (∀ candidate ∈ (gatherTo req k).candidates, candidate.listingIndex < k ∧
      ∃ source, (sources req)[candidate.listingIndex]? = some source ∧
        settle req (gatherTo req candidate.listingIndex) source candidate.listingIndex =
          .Taken candidate) ∧
    (∀ j, j < k → ∀ source candidate, (sources req)[j]? = some source →
      settle req (gatherTo req j) source j = .Taken candidate →
        candidate ∈ (gatherTo req k).candidates) := by
  induction k with
  | zero => simp [gatherTo]
  | succ k ih =>
      have hlt : k < (sources req).length := hk
      have hsource := List.getElem?_eq_getElem hlt
      obtain ⟨hplaces, hfrom, hinto⟩ := ih (Nat.le_of_lt hlt)
      rw [gatherTo_succ hsource, step, record_candidates]
      have hinto' : ∀ candidate, candidate ∈ (settle req (gatherTo req k) (sources req)[k] k).taken →
          settle req (gatherTo req k) (sources req)[k] k = .Taken candidate := by
        intro candidate hcandidate
        cases hout : settle req (gatherTo req k) (sources req)[k] k with
        | Taken other =>
            rw [hout] at hcandidate
            cases hcandidate
            rfl
        | Ignored | Refused | Installed | Duplicate | Emptied =>
            rw [hout] at hcandidate
            cases hcandidate
      have hplace : ∀ candidate, candidate ∈ (settle req (gatherTo req k) (sources req)[k] k).taken →
          candidate.listingIndex = k := by
        intro candidate hcandidate
        obtain ⟨copy, -, rfl, -⟩ := taken_settle hcandidate
        rfl
      refine ⟨?_, ?_, ?_⟩
      · cases htaken : (settle req (gatherTo req k) (sources req)[k] k).taken with
        | none => simpa using hplaces
        | some candidate =>
            rw [Option.toList_some, List.map_append]
            refine List.nodup_append.mpr ⟨hplaces, List.nodup_singleton _, ?_⟩
            intro place hold other hother
            obtain ⟨earlier, hearlier, rfl⟩ := List.mem_map.mp hold
            obtain rfl := List.mem_singleton.mp hother
            have := (hfrom earlier hearlier).1
            have := hplace candidate htaken
            omega
      · intro candidate hcandidate
        rcases List.mem_append.mp hcandidate with hold | hnew
        · obtain ⟨hbelow, hsettled⟩ := hfrom candidate hold
          exact ⟨Nat.lt_succ_of_lt hbelow, hsettled⟩
        · rw [Option.mem_toList] at hnew
          have hindex := hplace candidate hnew
          rw [hindex]
          exact ⟨Nat.lt_succ_self k, _, hsource, hinto' candidate hnew⟩
      · intro j hj source candidate hat hsettled
        rcases Nat.lt_succ_iff_lt_or_eq.mp hj with hj | rfl
        · exact List.mem_append_left _ (hinto j hj source candidate hat hsettled)
        · rw [hsource] at hat
          cases hat
          refine List.mem_append_right _ ?_
          rw [hsettled]
          simp [Outcome.taken]

theorem notes_to {k : Nat} (hk : k ≤ (sources req).length) :
    ((List.range k).flatMap (notes req)).Perm (gatherTo req k).noted := by
  induction k with
  | zero => simp [gatherTo, Gather.noted]
  | succ k ih =>
      have hlt : k < (sources req).length := hk
      have hsource := List.getElem?_eq_getElem hlt
      have ih := ih (Nat.le_of_lt hlt)
      rw [List.range_succ, List.flatMap_append, gatherTo_succ hsource]
      refine List.Perm.trans ?_ (record_noted _ _).symm
      refine ih.append (.of_eq ?_)
      simp [notes, hsource]

end Gathering

section Reports

variable {req : PlanRequest} {k : Nat} {source : Source}

theorem order_places (req : PlanRequest) : ((order req).map Candidate.listingIndex).Nodup := by
  have hplaces := (candidates_to (Nat.le_refl (sources req).length)).1
  rw [← gathered_eq] at hplaces
  exact ((order_perm req).map _).nodup_iff.mpr hplaces

theorem mem_order {candidate : Candidate} : candidate ∈ order req ↔
    candidate.listingIndex < (sources req).length ∧
      ∃ source, (sources req)[candidate.listingIndex]? = some source ∧
        settle req (gatherTo req candidate.listingIndex) source candidate.listingIndex =
          .Taken candidate := by
  obtain ⟨-, hfrom, hinto⟩ := candidates_to (Nat.le_refl (sources req).length)
  rw [(order_perm req).mem_iff, gathered_eq]
  constructor
  · exact hfrom candidate
  · rintro ⟨hlt, source, hsource, hsettled⟩
    exact hinto _ hlt source candidate hsource hsettled

theorem notes_eq (hsource : (sources req)[k]? = some source) :
    notes req k = (settle req (gatherTo req k) source k).note (gatherTo req k) := by
  rw [notes, hsource]

theorem reports_untaken (hsource : (sources req)[k]? = some source)
    (huntaken : (settle req (gatherTo req k) source k).taken = none) :
    reports req k = (settle req (gatherTo req k) source k).note (gatherTo req k) := by
  have hnone : verdicts req k = [] := by
    refine verdictAt_none fun candidate hcandidate hplace => ?_
    obtain ⟨-, source', hsource', hsettled⟩ := mem_order.mp hcandidate
    rw [hplace, hsource] at hsource'
    cases hsource'
    rw [hplace] at hsettled
    rw [hsettled] at huntaken
    cases huntaken
  rw [reports, notes_eq hsource, hnone, List.append_nil]

theorem reports_taken {candidate : Candidate} (hsource : (sources req)[k]? = some source)
    (htaken : settle req (gatherTo req k) source k = .Taken candidate) :
    ∃ action, reports req k = [action] ∧ Decided candidate.copy action := by
  have hplace : candidate.listingIndex = k := by
    obtain ⟨copy, -, rfl, -⟩ := taken_settle (k := k) (by rw [htaken]; rfl)
    rfl
  have hlt := (List.getElem?_eq_some_iff.mp hsource).1
  have hmem : candidate ∈ order req := by
    refine mem_order.mpr ?_
    rw [hplace]
    exact ⟨hlt, source, hsource, htaken⟩
  obtain ⟨action, hone, hdecided⟩ := verdictAt_one (order_decided req) (order_places req) hmem
  refine ⟨action, ?_, hdecided⟩
  rw [hplace] at hone
  rw [reports, notes_eq hsource, htaken]
  exact hone

theorem Decided.ofFile {copy : Copy} {action : Action} (h : Decided copy action) :
    action.ofFile = true := by
  rcases h with rfl | ⟨reason, -, rfl⟩ <;> rfl

variable {copy : Copy}

theorem Names.not_planned (h : Names req k copy)
    (hfirst : ∀ j, j < k → ∀ other, Names req j other → other.identity ≠ copy.identity) :
    copy.identity ∉ (gatherTo req k).plannedFiles := by
  rw [planned_iff (Nat.le_of_lt h.lt)]
  rintro ⟨-, j, hj, other, hother, hsame⟩
  exact hfirst j hj other hother hsame

-- The first source of a file that the library does not have is decided, unless it
-- is empty.
theorem reports_first (h : Names req k copy) (hfresh : copy.identity ∉ req.installed)
    (hfirst : ∀ j, j < k → ∀ other, Names req j other → other.identity ≠ copy.identity) :
    (copy.fileLen = 0 → reports req k = []) ∧
      (copy.fileLen ≠ 0 → ∃ action, reports req k = [action] ∧ Decided copy action) := by
  have hnew := h.not_planned hfirst
  obtain ⟨source, hsource, hnamed⟩ := h
  constructor
  · intro hlen
    have hsettled : settle req (gatherTo req k) source k = .Emptied copy.identity :=
      settle_emptied hnamed hfresh hnew hlen
    rw [reports_untaken hsource (by rw [hsettled]; rfl), hsettled]
    rfl
  · intro hlen
    exact reports_taken hsource (settle_taken hnamed hfresh hnew hlen)

-- Every later one is a duplicate.
theorem reports_later {j : Nat} {other : Copy} (h : Names req k copy)
    (hfresh : copy.identity ∉ req.installed) (hj : j < k) (hother : Names req j other)
    (hsame : other.identity = copy.identity) :
    reports req k = [.Skip (some copy.titleId) skipDuplicateTitle] := by
  have hplanned : copy.identity ∈ (gatherTo req k).plannedFiles :=
    (planned_iff (Nat.le_of_lt h.lt)).mpr ⟨hfresh, j, hj, other, hother, hsame⟩
  obtain ⟨source, hsource, hnamed⟩ := h
  have hsettled : settle req (gatherTo req k) source k = .Duplicate copy.identity :=
    settle_duplicate hnamed hfresh hplanned
  rw [reports_untaken hsource (by rw [hsettled]; rfl), hsettled]
  rfl

theorem reports_installed (h : Names req k copy) (hinstalled : copy.identity ∈ req.installed) :
    ∃ reason, reports req k = [.Skip (some copy.titleId) reason] := by
  obtain ⟨source, hsource, hnamed⟩ := h
  have hsettled : settle req (gatherTo req k) source k = .Installed copy.identity :=
    settle_installed hnamed hinstalled
  rw [reports_untaken hsource (by rw [hsettled]; rfl), hsettled]
  exact ⟨_, rfl⟩

theorem reports_refused {remote : RemoteRef} {err : PathSchemaError}
    (hsource : (sources req)[k]? = some source)
    (hnamed : source.named req = some (.error (remote, err))) :
    reports req k = [.Review (some remote) (reviewReason err)] := by
  have hsettled : settle req (gatherTo req k) source k = .Refused remote err :=
    settle_refused hnamed
  rw [reports_untaken hsource (by rw [hsettled]; rfl), hsettled]
  rfl

theorem duplicate_undecided {action : Action} (h : Decided copy action) (titleId : Option TitleId) :
    action ≠ .Skip titleId skipDuplicateTitle := by
  rintro rfl
  rcases h with h | ⟨reason, hreason, h⟩
  · cases h
  · cases h
    have hother : skipDuplicateTitle ∉ lockOrBudget := by decide
    exact hother hreason

-- The first source of the file that a source names.
theorem Names.first (h : Names req k copy) : ∃ j other, j ≤ k ∧ Names req j other ∧
    other.identity = copy.identity ∧
      ∀ i, i < j → ∀ earlier, Names req i earlier → earlier.identity ≠ copy.identity := by
  classical
  have hsome : ∃ j, ∃ other, Names req j other ∧ other.identity = copy.identity := ⟨k, copy, h, rfl⟩
  obtain ⟨other, hother, hsame⟩ := Nat.find_spec hsome
  refine ⟨Nat.find hsome, other, Nat.find_min' hsome ⟨copy, h, rfl⟩, hother, hsame, ?_⟩
  intro i hi earlier hearlier hidentity
  exact Nat.find_min hsome hi ⟨earlier, hearlier, hidentity⟩

theorem note_ofFile (gather : Gather) (outcome : Outcome) :
    ∀ action ∈ outcome.note gather, action.ofFile = true := by
  intro action haction
  cases outcome with
  | Refused | Installed | Duplicate =>
      obtain rfl := List.mem_singleton.mp haction
      rfl
  | Ignored | Emptied | Taken => cases haction

theorem decided_ofFile {order : List Candidate} {actions : List Action}
    (hall : List.Forall₂ (fun candidate action => Decided candidate.copy action) order actions) :
    ∀ action ∈ actions, action.ofFile = true := by
  induction hall with
  | nil => exact fun action h => by cases h
  | cons hdecided _ ih =>
      intro action haction
      rcases List.mem_cons.mp haction with rfl | haction
      · exact hdecided.ofFile
      · exact ih action haction

-- The reports of all sources are the actions of the plan that are about a file.
theorem reports_all (req : PlanRequest) :
    ((List.range (sources req).length).flatMap (reports req)).Perm
      ((planActions req).actions.filter Action.ofFile) := by
  have hnotes := notes_to (Nat.le_refl (sources req).length)
  rw [← gathered_eq] at hnotes
  have hverdicts : ((List.range (sources req).length).flatMap (verdicts req)).Perm
      (copyActions req) := by
    refine (verdictAt_all fun verdict hverdict => ?_).trans (.of_eq ?_)
    · exact (mem_order.mp (List.of_mem_zip hverdict).1).1
    · exact List.map_snd_zip (order_decided req).length_eq.ge
  have hcopies : (copyActions req).filter Action.ofFile = copyActions req :=
    List.filter_eq_self.mpr (decided_ofFile (order_decided req))
  have hnoted : (gathered req).noted.filter Action.ofFile = (gathered req).noted := by
    refine List.filter_eq_self.mpr fun action haction => ?_
    obtain ⟨k, -, hk⟩ := List.mem_flatMap.mp (hnotes.mem_iff.mpr haction)
    unfold notes at hk
    split at hk
    · cases hk
    · exact note_ofFile _ _ action hk
  have hedge : (if req.edgeFrozen then [Action.EdgeApply] else []).filter Action.ofFile = [] := by
    split <;> rfl
  have hgrab : (if req.desired.grabber = .Servarr then [Action.GrabApply] else []).filter
      Action.ofFile = [] := by
    split <;> rfl
  have hunmonitor : (unmonitorActions req).filter Action.ofFile = [] := by
    refine List.filter_eq_nil_iff.mpr fun action haction => ?_
    unfold unmonitorActions at haction
    split at haction
    · cases haction
    · obtain ⟨titleId, -, rfl⟩ := List.mem_map.mp haction
      simp [Action.ofFile]
  have hplan : (planActions req).actions.filter Action.ofFile =
      copyActions req ++ (gathered req).noted := by
    rw [← hcopies, ← hnoted]
    simp only [planActions, Gather.noted, List.filter_append, hedge, hgrab, hunmonitor, hcopies,
      List.nil_append, List.append_nil, List.append_assoc]
  rw [hplan]
  refine (List.flatMap_append_perm _ _ _).symm.trans ?_
  exact (hnotes.append hverdicts).trans List.perm_append_comm

end Reports

section Conserves

variable {req : PlanRequest}

-- What a plan keeps: all its actions about files are the reports of its sources; a
-- listing that counts reports one; and behind each duplicate of a file that is not
-- installed another source of the file is decided.
structure Conserves (req : PlanRequest) : Prop where
  accounted : ((List.range (sources req).length).flatMap (reports req)).Perm
    ((planActions req).actions.filter Action.ofFile)
  listed : ∀ k entry, (sources req)[k]? = some (.Listed entry) → Counted req entry →
    ∃ action, reports req k = [action] ∧ action.ofFile = true
  represented : ∀ k copy, Names req k copy → copy.identity ∉ req.installed →
    Action.Skip (some copy.titleId) skipDuplicateTitle ∈ reports req k →
      ∃ j other, j ≠ k ∧ Names req j other ∧ other.identity = copy.identity ∧
        ∃ action, reports req j = [action] ∧ Decided other action

-- Of several sources of a file the library does not have, the first is not empty.
def FirstNonempty (req : PlanRequest) : Prop :=
  ∀ j k other copy, j < k → Names req j other → Names req k copy →
    other.identity = copy.identity → copy.identity ∉ req.installed →
      (∀ i, i < j → ∀ earlier, Names req i earlier → earlier.identity ≠ copy.identity) →
        other.fileLen ≠ 0

theorem reports_listed {k : Nat} {entry : RemoteEntry}
    (hsource : (sources req)[k]? = some (.Listed entry)) (hcounted : Counted req entry) :
    ∃ action, reports req k = [action] ∧ action.ofFile = true := by
  cases hclass : classifyRemote req.rootKinds entry with
  | error err =>
      have hnamed : (Source.Listed entry).named req = some (.error (entry.ref, err)) := by
        rw [Source.named, if_pos hcounted, hclass]
      exact ⟨_, reports_refused hsource hnamed, rfl⟩
  | ok parsed =>
      obtain ⟨titleId, placement⟩ := parsed
      have hnames : Names req k
          { titleId, remote := entry.ref, fileLen := entry.len, placement } :=
        ⟨_, hsource, named_listed hcounted hclass⟩
      generalize hcopy : (Copy.mk titleId entry.ref entry.len placement) = copy at hnames
      have hlen : copy.fileLen ≠ 0 := by
        rw [← hcopy]
        exact fun hzero => hcounted.1 (.inl hzero)
      by_cases hinstalled : copy.identity ∈ req.installed
      · obtain ⟨reason, hreports⟩ := reports_installed hnames hinstalled
        exact ⟨_, hreports, rfl⟩
      · obtain ⟨j, other, hle, hother, hsame, hfirst⟩ := hnames.first
        rcases Nat.lt_or_eq_of_le hle with hlt | rfl
        · exact ⟨_, reports_later hnames hinstalled hlt hother hsame, rfl⟩
        · obtain ⟨action, hreports, hdecided⟩ := (reports_first hnames hinstalled hfirst).2 hlen
          exact ⟨action, hreports, hdecided.ofFile⟩

-- Nothing disappears from a plan just where no empty source stands in front of
-- another one of its file.
theorem plan_conserves (req : PlanRequest) : Conserves req ↔ FirstNonempty req := by
  constructor
  · intro h j k other copy hlt hother hcopy hsame hfresh hfirst hlen
    have hlater := reports_later hcopy hfresh hlt hother hsame
    obtain ⟨i, third, hne, hthird, hidentity, action, hreports, hdecided⟩ :=
      h.represented k copy hcopy hfresh (by rw [hlater]; exact List.mem_singleton_self _)
    have hfirst' : ∀ i, i < j → ∀ earlier, Names req i earlier →
        earlier.identity ≠ other.identity := fun i hi earlier hearlier =>
      hsame ▸ hfirst i hi earlier hearlier
    rcases Nat.lt_trichotomy i j with hij | rfl | hji
    · exact hfirst i hij third hthird hidentity
    · rw [(reports_first hother (hsame ▸ hfresh) hfirst').1 hlen] at hreports
      cases hreports
    · rw [reports_later hthird (hidentity ▸ hfresh) hji hother (hsame.trans hidentity.symm)]
        at hreports
      cases hreports
      exact duplicate_undecided hdecided _ rfl
  · intro h
    refine ⟨reports_all req, fun k entry => reports_listed, fun k copy hcopy hfresh hdup => ?_⟩
    obtain ⟨j, other, hle, hother, hsame, hfirst⟩ := hcopy.first
    have hfirst' : ∀ i, i < j → ∀ earlier, Names req i earlier →
        earlier.identity ≠ other.identity := fun i hi earlier hearlier =>
      hsame ▸ hfirst i hi earlier hearlier
    have hfreshOther : other.identity ∉ req.installed := hsame ▸ hfresh
    rcases Nat.lt_or_eq_of_le hle with hlt | rfl
    · have hlen := h j k other copy hlt hother hcopy hsame hfresh hfirst
      obtain ⟨action, hreports, hdecided⟩ := (reports_first hother hfreshOther hfirst').2 hlen
      exact ⟨j, other, Nat.ne_of_lt hlt, hother, hsame, action, hreports, hdecided⟩
    · -- The source is the first of its file, and no first one is a duplicate.
      obtain rfl := hother.eq hcopy
      by_cases hlen : other.fileLen = 0
      · rw [(reports_first hcopy hfresh hfirst).1 hlen] at hdup
        cases hdup
      · obtain ⟨action, hreports, hdecided⟩ := (reports_first hcopy hfresh hfirst).2 hlen
        rw [hreports, List.mem_singleton] at hdup
        exact absurd hdup.symm (duplicate_undecided hdecided _)

end Conserves

end

namespace Sample

def hold (size : UInt64) (path : Text) (contained : RemoteRef.check "movies" path = .ok ()) :
    @HoldLiveItem UnicodeTables.ascii :=
  @HoldLiveItem.mk UnicodeTables.ascii
    (@HoldKey.mk UnicodeTables.ascii
      (@TitleId.mk UnicodeTables.ascii .Movie .Tmdb "1" TitleId.Sample.movie_pair (by decide) (by decide)) "r")
    size (some ⟨"movies", path, contained⟩) (some (.Movie "A" 2000 "mkv"))

-- Two approved holds of one movie, neither of them listed; the first has no size.
def lostReq : @PlanRequest UnicodeTables.ascii :=
  @PlanRequest.mk UnicodeTables.ascii [] (fun _ => some .Movie) [] [] []
    { maxCopy := 10, minFree := 20, lock := false, grabber := .None } 30 false []
    [hold 0 "a.mkv" (by decide), hold 5 "b.mkv" (by decide)] []

def file (source : @Source UnicodeTables.ascii) : Option (@Copy UnicodeTables.ascii) :=
  (@Source.named UnicodeTables.ascii lostReq source).bind Except.toOption

def approved (size : UInt64) (path : Text) (contained : RemoteRef.check "movies" path = .ok ()) :
    @Source UnicodeTables.ascii :=
  @Source.Approved UnicodeTables.ascii (hold size path contained)

theorem file_same : (file (approved 0 "a.mkv" (by decide))).map (@Copy.identity UnicodeTables.ascii) =
    (file (approved 5 "b.mkv" (by decide))).map (@Copy.identity UnicodeTables.ascii) := by
  decide +kernel

end Sample

-- The movie is reported as a duplicate, and nothing else is reported of it.
theorem plan_loses_movie :
    let := UnicodeTables.ascii
    (planActions Sample.lostReq).actions.map Action.ofFile = [true] ∧
      ¬Conserves Sample.lostReq := by
  intro _
  refine ⟨by decide +kernel, fun h => ?_⟩
  have hnames : ∀ k source, (sources Sample.lostReq)[k]? = some source →
      (Sample.file source).isSome = true → ∃ copy, Names Sample.lostReq k copy ∧
        Sample.file source = some copy := by
    intro k source hsource hsome
    obtain ⟨copy, hcopy⟩ := Option.isSome_iff_exists.mp hsome
    refine ⟨copy, ⟨source, hsource, ?_⟩, hcopy⟩
    obtain ⟨result, hresult, hok⟩ := Option.bind_eq_some_iff.mp hcopy
    cases result with
    | error err => cases hok
    | ok found =>
        cases hok
        exact hresult
  obtain ⟨first, hfirst, hfirstFile⟩ := hnames 0
    (Sample.approved 0 "a.mkv" (by decide)) rfl (by decide +kernel)
  obtain ⟨second, hsecond, hsecondFile⟩ := hnames 1
    (Sample.approved 5 "b.mkv" (by decide)) rfl (by decide +kernel)
  have hsame : first.identity = second.identity := by
    have hidentity := Sample.file_same
    rw [hfirstFile, hsecondFile] at hidentity
    exact Option.some.inj hidentity
  have hfresh : second.identity ∉ Sample.lostReq.installed := List.not_mem_nil
  have hdup := reports_later hsecond hfresh Nat.zero_lt_one hfirst hsame
  obtain ⟨j, other, hne, hother, -, action, hreports, -⟩ :=
    h.represented 1 second hsecond hfresh (by rw [hdup]; exact List.mem_singleton_self _)
  have hlt : j < 2 := hother.lt
  obtain rfl : j = 0 := by omega
  have hempty : (reports Sample.lostReq 0).length = 0 := by decide +kernel
  rw [hreports] at hempty
  cases hempty

end Mediaops.Plan
