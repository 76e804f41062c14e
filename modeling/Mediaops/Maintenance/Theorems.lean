import Mediaops.Api.BoundJobs
import Mediaops.Api.Budget
import Mediaops.Maintenance

namespace Mediaops.Maintenance

open Api

-- Whether the Cluster is locked.
def lockedIn (s : Store) : Bool :=
  match (s.get .Cluster clusterName).map HomeObject.spec with
  | some (.Cluster spec) => spec.lock
  | _ => false

-- No worker was given a Job that it has not finished.
def NoActive (s : Store) : Prop := ∀ job ∈ s.objects, Admission.reservation job = none

theorem noActive_iff {s : Store} : NoActive s ↔ ∀ job ∈ s.objects, ∀ spec, ¬Active job spec := by
  constructor
  · intro h job hjob spec hactive
    rw [Active, h job hjob] at hactive
    cases hactive
  · intro h job hjob
    cases hreserved : Admission.reservation job with
    | none => rfl
    | some spec => exact absurd hreserved (h job hjob spec)

theorem isActive_eq (job : HomeObject) : isActive job = (Admission.reservation job).isSome := by
  cases hreserved : Admission.reservation job with
  | some spec =>
      obtain ⟨hspec, hnode, status, hstatus, hrunning⟩ := Api.reservation_some hreserved
      simp [isActive, hspec, hstatus, hnode, hrunning]
  | none =>
      unfold isActive
      split
      · next spec status hspec hstatus =>
          rw [Api.reservation_of_job hspec hstatus] at hreserved
          simpa using hreserved
      · rfl

theorem noActive_of_list {s : Store} (ht : Typed s) (h : (s.list (some .Job)).any isActive = false) :
    NoActive s := by
  rw [noActive_iff]
  intro job hjob spec hactive
  obtain ⟨_, hspec, -⟩ := active_iff.mp hactive
  have hnot := jobs_listed ht hjob hspec h
  rw [isActive_eq, hactive] at hnot
  cases hnot

section

variable [UnicodeTables]

-- A write gives a worker a Job only while the Cluster is unlocked.
theorem noActive_write {s : Store} {ev : StoreEvent} (hs : Store.Sound s) (ht : Typed s)
    (hw : Write s ev) (hnone : NoActive s) (hlock : lockedIn s = true ∨ ev.watch = .Added) :
    NoActive (s.write ev) := by
  rw [noActive_iff] at hnone ⊢
  intro job hjob spec hactive
  rcases hs.mem_write hjob with ⟨hkept, rfl⟩ | ⟨hold, -⟩
  · obtain ⟨status, hspec, hstatus, hnode, hopen⟩ := active_iff.mp hactive
    cases hw.job (Agrees.job_of_spec (hw.typed ht).1 hspec) with
    | Created name spec' _ _ hunbound =>
        cases hspec
        exact hnode hunbound
    | Reapplied old hold => exact hnone old hold spec hactive
    | Reported old spec' before after hold _ _ hbefore _ hadmitted =>
        exact hnone old hold spec (active_iff.mpr ⟨before, hspec, hbefore, hnode, hadmitted.open_⟩)
    | Bound old spec' worker status' disk hold _ _ _ hadmitted =>
        have hunlocked := hadmitted.cluster
        rcases hlock with hlock | hadded
        · unfold lockedIn at hlock
          unfold Admission.clusterAllows at hunlocked
          split at hunlocked
          · next config hfound =>
              rw [hfound] at hlock
              simp only at hlock
              simp [hlock] at hunlocked
          · cases hunlocked
        · cases hadded
    | Refused old spec' before message =>
        cases hstatus
        cases hopen
    | Deleted old hold => exact hkept rfl
  · exact hnone job hold spec hactive

theorem noActive_trail {s s' : Store} {evs : List StoreEvent} (hs : Store.Sound s) (ht : Typed s)
    (h : Store.Trail Write s evs s') (hadded : ∀ ev ∈ evs, ev.watch = .Added)
    (hnone : NoActive s) : NoActive s' := by
  induction h with
  | Done s => exact hnone
  | @Write s s' ev evs hw _ ih =>
      have hfirst := noActive_write hs ht hw hnone (.inr (hadded ev List.mem_cons_self))
      exact ih (hs.write (hw.change hs)) (ht.write hs hw)
        (fun e he => hadded e (List.mem_cons_of_mem _ he)) hfirst

-- A whole step under the lock leaves the workers without Jobs.
theorem noActive_step {s s' : Store} {past : List Store} (run : Run (s :: past))
    (step : Step (s :: past) s s') (hlock : lockedIn s = true) (hnone : NoActive s) :
    NoActive s' := by
  have hsettled := run.settled
  have hs := hsettled.sound
  have ht := hsettled.typed
  cases run.effect step with
  | @Writes evs _ htrail hsolo =>
      have hwrites : Store.Trail Write s evs s' := htrail.mono fun _ _ hw => hw.1
      rcases hsolo with hone | hadded
      · cases hwrites with
        | Done => exact hnone
        | @Write _ _ ev rest hw htail =>
            have hrest : rest = [] := by
              cases rest with
              | nil => rfl
              | cons e rest => simp at hone
            subst hrest
            cases htail
            exact noActive_write hs ht hw hnone (.inl hlock)
      · exact noActive_trail hs ht hwrites hadded hnone
  | Capture h => exact noActive_write hs ht h.write hnone (.inl hlock)
  | @Schedule _ s₁ old before after h =>
      obtain ⟨env, objects, hrun⟩ := h.entries
      obtain ⟨evs, htrail, hadded⟩ := entriesRun_added hrun
      have hmid : Settled [] s₁ := Settled.trail ⟨hs, ht, by simp, by simp⟩ htrail
      have hlocked : lockedIn s₁ = true := by
        rw [lockedIn, hrun.get_other (by decide) (by decide)]
        exact hlock
      have hopen : before.phase ≠ .Scheduled := by
        rw [h.captured]
        exact SyncPhase.noConfusion
      rw [h.final]
      exact noActive_write hmid.sound hmid.typed
        (.Sync (.Planned old before after (h.sync_mem hs) h.kind h.status hopen h.move))
        (noActive_trail hs ht htrail hadded hnone) (.inl hlocked)

-- The value of the lock that the client has to put back, once it knows it.
def Phase.previous : Phase → Option Bool
  | .Reading (.Restore previous) _ | .Patching (.Restore previous) _ _ _ | .Listing previous
  | .Done (.ok previous) => some previous
  | _ => none

-- The object of a patch is a row of some state, with the lock the client wants.
def Drafted (trace : List Store) (goal : Goal) (cluster : HomeObject) (previous : Bool) : Prop :=
  ∃ view ∈ trace, ∃ row ∈ view.objects, ∃ config, row.key = (.Cluster, clusterName) ∧
    row.spec = .Cluster config ∧ previous = config.lock ∧
    cluster = { row with spec := .Cluster { config with lock := goal.lock } }

structure Inv (w : World) : Prop where
  run : Run w.trace
  drafted : ∀ goal attempt cluster previous, w.phase = .Patching goal attempt cluster previous →
    Drafted w.trace goal cluster previous
  known : ∀ previous, w.phase.previous = some previous → w.since ≠ [] ∧
    ∃ s, w.before = some s ∧ lockedIn s = previous
  head : w.since ≠ [] → w.store ∈ w.since
  listed : ∀ previous, w.phase = .Done (.ok previous) → ∃ s, w.returned = some s ∧ NoActive s
  excluded : ∀ previous, w.phase = .Done (.ok previous) →
    (∀ s ∈ w.since, lockedIn s = true) → NoActive w.store
  restored : w.phase = .Done (.error refusal) → ∃ s s', w.before = some s ∧
    w.returned = some s' ∧ lockedIn s' = lockedIn s

theorem inv_begin {s : Store} {past : List Store} (run : Run (s :: past)) : Inv (.begin s past) where
  run := run
  drafted _ _ _ _ h := by cases h
  known _ h := by cases h
  head h := absurd rfl h
  listed _ h := by cases h
  excluded _ h := by cases h
  restored h := by cases h

omit [UnicodeTables] in
theorem Drafted.mono {trace trace' : List Store} {goal : Goal} {cluster : HomeObject}
    {previous : Bool} (h : Drafted trace goal cluster previous) (hsub : trace ⊆ trace') :
    Drafted trace' goal cluster previous := by
  obtain ⟨view, hview, hrest⟩ := h
  exact ⟨view, hsub hview, hrest⟩

omit [UnicodeTables] in
theorem since_ne {w : World} {s' : Store} (h : w.since ≠ []) :
    (if w.since = [] then [] else s' :: w.since) = s' :: w.since := if_neg h

theorem Inv.moved {w : World} (h : Inv w) {s' : Store} (step : Step w.trace w.store s') :
    Inv (w.moved s') where
  run := .Next h.run step
  drafted goal attempt cluster previous hphase :=
    (h.drafted goal attempt cluster previous hphase).mono (List.subset_cons_self _ _)
  known previous hphase := by
    obtain ⟨hsince, hbefore⟩ := h.known previous hphase
    refine ⟨?_, hbefore⟩
    rw [World.moved, since_ne hsince]
    exact List.cons_ne_nil _ _
  head hsince := by
    have hne : w.since ≠ [] := by
      intro hnil
      exact hsince (if_pos hnil)
    simp only [World.moved, since_ne hne]
    exact List.mem_cons_self
  listed := h.listed
  excluded previous hphase hlocked := by
    obtain ⟨hsince, -⟩ := h.known previous (by rw [show w.phase = _ from hphase]; rfl)
    simp only [World.moved, since_ne hsince] at hlocked
    have hbefore : ∀ s ∈ w.since, lockedIn s = true := fun s hs =>
      hlocked s (List.mem_cons_of_mem _ hs)
    exact noActive_step h.run step (hbefore w.store (h.head hsince))
      (h.excluded previous hphase hbefore)
  restored := h.restored

-- The row that a served patch finds is the row that was read.
theorem drafted_served {w : World} (h : Inv w) {goal : Goal} {cluster : HomeObject}
    {previous : Bool} (hdraft : Drafted w.trace goal cluster previous) {env : Env} {s' : Store}
    (hserve : Serve.serve env w.store w.store .Import (.Patch .PatchSpec cluster) = (.ok (), s')) :
    lockedIn w.store = previous ∧ lockedIn s' = goal.lock := by
  have hsettled := h.run.settled
  obtain ⟨view, hview, row, hrow, config, hkey, hconfig, rfl, rfl⟩ := hdraft
  obtain ⟨old, hold, hrv, rfl⟩ := patchSpec_served hsettled.typed hserve
  obtain ⟨hv, hsince⟩ := hsettled.views view hview
  obtain rfl := hsince.coherent hv hrow (Store.get_mem hold) hrv
  have hkind : row.kind = .Cluster := congrArg Prod.fst hkey
  have hname : row.metadata.name = clusterName := congrArg Prod.snd hkey
  have hget : w.store.get .Cluster clusterName = some row := by
    rw [← hkind, ← hname]
    exact hold
  constructor
  · simp only [lockedIn, hget, Option.map_some, hconfig]
  · generalize hnew : respecified w.store row (.Cluster { config with lock := goal.lock }) = new
    have hnewKind : new.kind = .Cluster := by rw [← hnew]; exact hkind
    have hnewName : new.metadata.name = clusterName := by rw [← hnew]; exact hname
    have hself : (w.store.write ⟨.Modified, new⟩).get .Cluster clusterName = some new := by
      rw [← hnewKind, ← hnewName]
      exact Store.get_write_self WatchType.noConfusion
    have hspec : new.spec = .Cluster { config with lock := goal.lock } := by rw [← hnew]; rfl
    simp only [lockedIn, hself, Option.map_some, hspec]

theorem next_step {s : Store} {past : List Store} (env : Env) (phase : Phase) :
    Step (s :: past) s (next env s phase).2 := by
  cases phase with
  | Reading goal attempt => exact step_idle
  | Patching goal attempt cluster previous =>
      have hstep : Step (s :: past) s
          (Serve.serve env s s .Import (.Patch .PatchSpec cluster)).2 :=
        .Request env s List.mem_cons_self .Import (.Patch .PatchSpec cluster)
      simp only [next, write]
      split
      · next heq => rwa [heq] at hstep
      · next heq =>
          rw [heq] at hstep
          split <;> exact hstep
  | Listing previous =>
      simp only [next]
      split <;> exact step_idle
  | Done result => exact step_idle

-- A call that sets no lock and does not return the way the results speak of.
theorem Inv.rephase {w : World} (h : Inv w) {phase : Phase} {returned : Option Store}
    (hdrafted : ∀ goal attempt cluster previous, phase = .Patching goal attempt cluster previous →
      Drafted w.trace goal cluster previous)
    (hknown : ∀ previous, phase.previous = some previous → w.phase.previous = some previous)
    (hok : ∀ previous, phase ≠ .Done (.ok previous)) (hrefusal : phase ≠ .Done (.error refusal)) :
    Inv { w with phase, returned } where
  run := h.run
  drafted := hdrafted
  known previous hphase := h.known previous (hknown previous hphase)
  head := h.head
  listed previous hphase := absurd hphase (hok previous)
  excluded previous hphase := absurd hphase (hok previous)
  restored hphase := absurd hphase hrefusal

omit [UnicodeTables] in
theorem failed_eq (goal : Goal) (message : Text) :
    ∃ message', failed goal (.Runtime message) = .Done (.error (.Runtime message')) := by
  cases goal with
  | Begin => exact ⟨message, rfl⟩
  | Restore previous => exact ⟨_, rfl⟩

theorem Inv.fail {w : World} (h : Inv w) (message : Text) (returned : Option Store) :
    Inv { w with phase := .Done (.error (.Runtime message)), returned } := by
  refine h.rephase (fun _ _ _ _ hphase => ?_) (fun _ hphase => ?_) (fun _ hphase => ?_) ?_
  · cases hphase
  · cases hphase
  · cases hphase
  · intro hphase
    cases hphase

-- The lock is set for the first time.
theorem Inv.opened {w : World} (h : Inv w) {attempt : Nat} {cluster : HomeObject} {previous : Bool}
    (hphase : w.phase = .Patching .Begin attempt cluster previous) {env : Env} {s' : Store}
    (hserve : Serve.serve env w.store w.store .Import (.Patch .PatchSpec cluster) = (.ok (), s'))
    (step : Step w.trace w.store s') (returned : Option Store) :
    Inv { store := s', past := w.trace, phase := .Listing previous, before := some w.store,
          since := [s'], returned } where
  run := .Next h.run step
  drafted _ _ _ _ hlisting := by cases hlisting
  known previous' hlisting := by
    cases hlisting
    exact ⟨List.cons_ne_nil _ _, w.store, rfl,
      (drafted_served h (h.drafted _ _ _ _ hphase) hserve).1⟩
  head _ := List.mem_cons_self
  listed _ hlisting := by cases hlisting
  excluded _ hlisting := by cases hlisting
  restored hlisting := by cases hlisting

-- Any other call is a step like those of others, with a new phase.
theorem call_eq {w : World} {env : Env} {phase : Phase} {s' : Store}
    (hnext : next env w.store w.phase = (phase, s')) (hcall : World.isDone w.phase = false)
    (hopens : World.opens w.phase phase = false) :
    w.call env = { w.moved s' with
      phase
      returned := if World.isDone phase then some s' else w.returned } := by
  simp only [World.call, hnext, hcall, hopens, World.moved, Bool.not_false, Bool.and_true,
    Bool.false_eq_true, if_false]

omit [UnicodeTables] in
theorem read_cases (s : Store) (goal : Goal) (attempt : Nat) :
    (∃ message, read s goal attempt = .Done (.error (.Runtime message))) ∨
      ∃ cluster config, s.get .Cluster clusterName = some cluster ∧
        cluster.spec = .Cluster config ∧ read s goal attempt = .Patching goal attempt
          { cluster with spec := .Cluster { config with lock := goal.lock } } config.lock := by
  unfold read
  split
  · exact .inl (failed_eq goal _)
  next cluster hget =>
    split
    · next config hconfig => exact .inr ⟨cluster, config, hget, hconfig, rfl⟩
    · exact .inl (failed_eq goal _)

theorem Inv.read_call {w : World} (h : Inv w) (env : Env) {goal : Goal} {attempt : Nat}
    (hphase : w.phase = .Reading goal attempt) : Inv (w.call env) := by
  have hcall : World.isDone w.phase = false := by rw [hphase]; rfl
  have hopens : ∀ phase, World.opens w.phase phase = false := by
    intro phase
    rw [hphase]
    rfl
  have hmoved : Inv (w.moved w.store) := h.moved step_idle
  have hnext : next env w.store w.phase = (read w.store goal attempt, w.store) := by
    rw [hphase]
    rfl
  rw [call_eq hnext hcall (hopens _)]
  rcases read_cases w.store goal attempt with
    ⟨message, hfailed⟩ | ⟨cluster, config, hget, hconfig, hread⟩
  · rw [hfailed]
    exact hmoved.fail message _
  · rw [hread]
    refine hmoved.rephase (fun goal' attempt' cluster' previous' heq => ?_)
      (fun previous heq => ?_) (fun previous heq => ?_) (fun heq => ?_)
    · cases heq
      exact ⟨w.store, List.mem_cons_self, cluster, Store.get_mem hget, config,
        Store.get_key hget, hconfig, rfl, rfl⟩
    · change w.phase.previous = some previous
      rw [hphase]
      cases goal with
      | Begin => cases heq
      | Restore p => exact heq
    · cases heq
    · cases heq

theorem Inv.write_call {w : World} (h : Inv w) (env : Env) {goal : Goal} {attempt : Nat}
    {cluster : HomeObject} {previous : Bool}
    (hphase : w.phase = .Patching goal attempt cluster previous) : Inv (w.call env) := by
  have hcall : World.isDone w.phase = false := by rw [hphase]; rfl
  have hstep : Step w.trace w.store (next env w.store w.phase).2 := next_step env w.phase
  have hdraft := h.drafted _ _ _ _ hphase
  have hnext : next env w.store w.phase = write env w.store goal attempt cluster previous := by
    rw [hphase]
    rfl
  unfold write at hnext
  split at hnext
  · next s' hserve =>
      rw [hnext] at hstep
      cases goal with
      | Begin =>
          have hworld : w.call env = {
              store := s', past := w.trace, phase := .Listing previous, before := some w.store
              since := [s'], returned := w.returned } := by
            have hopens : World.opens w.phase (locked .Begin previous) = true := by
              rw [hphase]
              rfl
            have hnot : World.isDone (locked .Begin previous) = false := rfl
            simp only [World.call, hnext, hopens, hnot, Bool.false_and, if_true, Bool.false_eq_true,
              if_false]
            rfl
          rw [hworld]
          exact h.opened hphase hserve hstep _
      | Restore old =>
          have hopens : World.opens w.phase (locked (.Restore old) previous) = false := by
            rw [hphase]
            rfl
          have hmoved := h.moved hstep
          obtain ⟨hsince, s, hbefore, hold⟩ := h.known old (by rw [hphase]; rfl)
          have hlock := (drafted_served h hdraft hserve).2
          rw [call_eq hnext hcall hopens]
          exact {
            run := hmoved.run
            drafted := fun _ _ _ _ heq => by cases heq
            known := fun _ heq => by cases heq
            head := hmoved.head
            listed := fun _ heq => by cases heq
            excluded := fun _ heq => by cases heq
            restored := fun _ => ⟨s, s', hbefore, rfl, hlock.trans hold.symm⟩ }
  · next e s' hserve =>
      have hmoved : Inv (w.moved s') := by
        refine h.moved ?_
        have : (next env w.store w.phase).2 = s' := by
          rw [hnext]
          split <;> rfl
        rwa [this] at hstep
      split at hnext
      · have hopens : World.opens w.phase (.Reading goal (attempt + 1)) = false := by
          rw [hphase]
          cases goal <;> rfl
        rw [call_eq hnext hcall hopens]
        refine hmoved.rephase (fun _ _ _ _ heq => ?_) (fun previous' heq => ?_) (fun _ heq => ?_)
          (fun heq => ?_)
        · cases heq
        · change w.phase.previous = some previous'
          rw [hphase]
          cases goal with
          | Begin => cases heq
          | Restore p => exact heq
        · cases heq
        · cases heq
      · obtain ⟨message, hfailed⟩ := failed_eq goal e.display
        rw [hfailed] at hnext
        have hopens : World.opens w.phase (.Done (.error (.Runtime message))) = false := by
          rw [hphase]
          cases goal <;> rfl
        rw [call_eq hnext hcall hopens]
        exact hmoved.fail message _

theorem Inv.list_call {w : World} (h : Inv w) (env : Env) {previous : Bool}
    (hphase : w.phase = .Listing previous) : Inv (w.call env) := by
  have hcall : World.isDone w.phase = false := by rw [hphase]; rfl
  have hopens : ∀ phase, World.opens w.phase phase = false := by
    intro phase
    rw [hphase]
    rfl
  have hknown : w.phase.previous = some previous := by rw [hphase]; rfl
  have hmoved : Inv (w.moved w.store) := h.moved step_idle
  by_cases hactive : (w.store.list (some .Job)).any isActive = true
  · have hnext : next env w.store w.phase = (.Reading (.Restore previous) 0, w.store) := by
      rw [hphase]
      exact if_pos hactive
    rw [call_eq hnext hcall (hopens _)]
    refine hmoved.rephase (fun _ _ _ _ heq => ?_) (fun previous' heq => ?_) (fun _ heq => ?_)
      (fun heq => ?_)
    · cases heq
    · exact hknown.trans heq
    · cases heq
    · cases heq
  · have hnext : next env w.store w.phase = (.Done (.ok previous), w.store) := by
      rw [hphase]
      exact if_neg hactive
    have hnone : NoActive w.store :=
      noActive_of_list h.run.settled.typed (by simpa using hactive)
    rw [call_eq hnext hcall (hopens _)]
    exact {
      run := hmoved.run
      drafted := fun _ _ _ _ heq => by cases heq
      known := fun previous' heq => hmoved.known previous' (hknown.trans heq)
      head := hmoved.head
      listed := fun _ _ => ⟨w.store, rfl, hnone⟩
      excluded := fun _ _ _ => hnone
      restored := fun heq => by cases heq }

theorem Reachable.inv {w : World} (h : Reachable w) : Inv w := by
  induction h with
  | Start run => exact inv_begin run
  | Other _ step ih => exact ih.moved step
  | @Call w _ env hcall ih =>
      cases hphase : w.phase with
      | Reading goal attempt => exact ih.read_call env hphase
      | Patching goal attempt cluster previous => exact ih.write_call env hphase
      | Listing previous => exact ih.list_call env hphase
      | Done result =>
          rw [hphase] at hcall
          cases hcall
  | Lost _ message _ ih => exact ih.fail message _

-- When the client has its lock, no worker has a Job in the state it returned in, nor
-- in any later one as long as the lock has stayed set since the client set it. When
-- it is refused for an active Job, the lock is back to what it was.
theorem maintenance_exclusion {w : World} (h : Reachable w) :
    (∀ previous, w.phase = .Done (.ok previous) →
      (∃ s, w.returned = some s ∧ NoActive s) ∧
      ((∀ s ∈ w.since, lockedIn s = true) → NoActive w.store)) ∧
    (w.phase = .Done (.error refusal) → ∃ s s', w.before = some s ∧ w.returned = some s' ∧
      lockedIn s' = lockedIn s) :=
  ⟨fun previous hphase => ⟨h.inv.listed previous hphase, h.inv.excluded previous hphase⟩,
    h.inv.restored⟩

end

-- What the client was granted: the value of the lock it has to put back.
def Phase.granted : Phase → Option Bool
  | .Done (.ok previous) => some previous
  | _ => none

theorem Phase.eq_of_granted {phase : Phase} {previous : Bool}
    (h : phase.granted = some previous) : phase = .Done (.ok previous) := by
  cases phase with
  | Done result =>
      cases result with
      | ok p => cases h; rfl
      | error e => cases h
  | _ => cases h

section

variable [UnicodeTables] {env : Env} {s : Store} {past : List Store} {r₁ r₂ r₃ : Phase × Store}

omit [UnicodeTables] in
theorem moved_store (w : World) (s' : Store) : (w.moved s').store = s' := rfl

omit [UnicodeTables] in
theorem moved_phase (w : World) (s' : Store) : (w.moved s').phase = w.phase := rfl

-- The client reads the Cluster and sets the lock.
theorem reach_opened (run : Run (s :: past)) (hread : next env s (.Reading .Begin 0) = r₁)
    (hwrite : next env r₁.2 r₁.1 = r₂) (hopens : World.opens r₁.1 r₂.1 = true) :
    ∃ w, Reachable w ∧ w.phase = r₂.1 ∧ w.store = r₂.2 ∧ w.since = [r₂.2] := by
  have hcall : World.isDone r₁.1 = false := by
    cases hphase : r₁.1 <;> rw [hphase] at hopens <;> first | rfl | cases hopens
  have hfirst : Reachable ((World.begin s past).call env) := .Call (.Start run) env rfl
  have hphase : ((World.begin s past).call env).phase = r₁.1 := congrArg Prod.fst hread
  have hstore : ((World.begin s past).call env).store = r₁.2 := congrArg Prod.snd hread
  generalize (World.begin s past).call env = w at hfirst hphase hstore
  rw [← hphase, ← hstore] at hwrite
  rw [← hphase] at hcall hopens
  refine ⟨w.call env, .Call hfirst env hcall, congrArg Prod.fst hwrite, congrArg Prod.snd hwrite, ?_⟩
  simp only [World.call, hwrite, hopens, if_true]

-- The client lists the Jobs and returns.
theorem reach_listed {w : World} (h : Reachable w) (hlist : next env w.store w.phase = r₃)
    (hcall : World.isDone w.phase = false) (hdone : World.isDone r₃.1 = true) :
    ∃ w', Reachable w' ∧ w'.phase = r₃.1 ∧ w'.store = r₃.2 ∧ w'.returned = some r₃.2 ∧
      (w.since ≠ [] → w'.since = r₃.2 :: w.since) := by
  have hopens : World.opens w.phase r₃.1 = false := by
    cases hphase : r₃.1 with
    | Done result => unfold World.opens; split <;> first | rfl | contradiction
    | _ => rw [hphase] at hdone; cases hdone
  refine ⟨w.call env, .Call h env hcall, congrArg Prod.fst hlist, congrArg Prod.snd hlist, ?_, ?_⟩
  · simp [World.call, hlist, hcall, hdone]
  · intro hsince
    simp [World.call, hlist, hopens, hsince]

end

namespace Sample

open Api.Sample

variable [UnicodeTables]

-- The calls of a maintenance in the home with one queued film.
def drafted : Phase × Store := next env queued (.Reading .Begin 0)

def opened : Phase × Store := next env drafted.2 drafted.1

def granted : Phase × Store := next env opened.2 opened.1

-- Somebody clears the lock again before the Jobs are listed.
def unlock : HomeObject where
  kind := .Cluster
  metadata := { name := clusterName, resourceVersion := 9 }
  spec := .Cluster cluster
  status := StatusBody.empty .Cluster

def unlocked : Store := (Serve.serve env opened.2 opened.2 .Cli (.Patch .PatchSpec unlock)).2

def raced : Phase × Store := next env unlocked opened.1

def bound : Store :=
  (Serve.serve env raced.2 raced.2 .Scheduler (.Patch .PatchBind (reported 7 {}))).2

theorem unlock_step {w : World} (hstore : w.store = opened.2) :
    Step w.trace w.store unlocked := by
  rw [unlocked, ← hstore]
  exact .Request env _ List.mem_cons_self .Cli (.Patch .PatchSpec unlock)

theorem bind_step {w : World} (hstore : w.store = raced.2) : Step w.trace w.store bound := by
  rw [bound, ← hstore]
  exact .Request env _ List.mem_cons_self .Scheduler (.Patch .PatchBind (reported 7 {}))

theorem reach_raced {w : World} (h : Reachable w) (hphase : w.phase = opened.1)
    (hstore : w.store = opened.2) (hopened : World.isDone opened.1 = false)
    (hdone : World.isDone raced.1 = true) :
    ∃ w', Reachable w' ∧ w'.phase = raced.1 ∧ w'.store = raced.2 ∧ w'.returned = some raced.2 := by
  have hmoved : Reachable (w.moved unlocked) := .Other h (unlock_step hstore)
  have hlist : next env (w.moved unlocked).store (w.moved unlocked).phase = raced := by
    rw [moved_store, moved_phase, hphase, raced]
  have hcall : World.isDone (w.moved unlocked).phase = false := by
    rw [moved_phase, hphase]
    exact hopened
  obtain ⟨w', hreach, hphase', hstore', hreturned, -⟩ := reach_listed hmoved hlist hcall hdone
  exact ⟨w', hreach, hphase', hstore', hreturned⟩

end Sample

-- The lock may be cleared before the Jobs are listed: the client is granted its
-- maintenance, and the next step binds a Job without touching the Cluster.
theorem maintenance_raced :
    let := UnicodeTables.ascii
    ∃ w, Reachable w ∧ (∃ previous, w.phase = .Done (.ok previous)) ∧
      w.returned = some w.store ∧ ∃ s', Step w.trace w.store s' ∧
        s'.get .Cluster clusterName = w.store.get .Cluster clusterName ∧ ¬NoActive s' := by
  intro _
  obtain ⟨past, run, -⟩ := Api.Sample.queued_reaches
  obtain ⟨hopens, hopened, hgranted, hsame, hactive⟩ :
      World.opens Sample.drafted.1 Sample.opened.1 = true ∧
      World.isDone Sample.opened.1 = false ∧ Sample.raced.1.granted = some false ∧
      Sample.bound.get .Cluster clusterName = Sample.raced.2.get .Cluster clusterName ∧
      ¬∀ job ∈ Sample.bound.objects, Admission.reservation job = none := by decide +kernel
  have hphase := Phase.eq_of_granted hgranted
  have hdone : World.isDone Sample.raced.1 = true := by
    rw [hphase]
    rfl
  obtain ⟨w, hw, hwphase, hwstore, -⟩ :=
    reach_opened run Sample.drafted.eq_1.symm Sample.opened.eq_1.symm hopens
  obtain ⟨w', hw', hphase', hstore', hreturned⟩ :=
    Sample.reach_raced hw hwphase hwstore hopened hdone
  refine ⟨w', hw', ⟨false, hphase'.trans hphase⟩, ?_, Sample.bound, Sample.bind_step hstore', ?_,
    hactive⟩
  · rw [hreturned, hstore']
  · rw [hstore', hsame]

-- A maintenance that nobody disturbs.
theorem maintenance_exclusion_film :
    let := UnicodeTables.ascii
    ∃ w, Reachable w ∧ w.phase = .Done (.ok false) ∧ (∀ s ∈ w.since, lockedIn s = true) ∧
      (∃ s, w.returned = some s ∧ NoActive s) ∧ NoActive w.store := by
  intro _
  obtain ⟨past, run, -⟩ := Api.Sample.queued_reaches
  obtain ⟨hopens, hopened, hgranted, hlocked⟩ :
      World.opens Sample.drafted.1 Sample.opened.1 = true ∧
      World.isDone Sample.opened.1 = false ∧ Sample.granted.1.granted = some false ∧
      lockedIn Sample.granted.2 = true ∧ lockedIn Sample.opened.2 = true := by decide +kernel
  have hphase := Phase.eq_of_granted hgranted
  have hdone : World.isDone Sample.granted.1 = true := by
    rw [hphase]
    rfl
  obtain ⟨w, hw, hwphase, hwstore, hsince⟩ :=
    reach_opened run Sample.drafted.eq_1.symm Sample.opened.eq_1.symm hopens
  have hlist : next Api.Sample.env w.store w.phase = Sample.granted := by
    rw [hwphase, hwstore, Sample.granted]
  rw [← hwphase] at hopened
  obtain ⟨w', hw', hphase', -, -, hsince'⟩ := reach_listed hw hlist hopened hdone
  have hheld : ∀ s ∈ w'.since, lockedIn s = true := by
    rw [hsince' (by rw [hsince]; exact List.cons_ne_nil _ _), hsince]
    simpa using hlocked
  obtain ⟨hreturned, hnone⟩ := (maintenance_exclusion hw').1 false (hphase'.trans hphase)
  exact ⟨w', hw', hphase'.trans hphase, hheld, hreturned, hnone hheld⟩

end Mediaops.Maintenance
