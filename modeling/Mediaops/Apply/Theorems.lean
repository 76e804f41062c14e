import Mediaops.Apply.Safety

namespace Mediaops.Apply

-- One run of a plan after another. A copy that failed leaves a partial file and a
-- sidecar; other copies leave them alone unless they are for the same title and find
-- its pull in flight for another remote, or stage under one of its names.

open Jobs
open Transfer (Mounted StagingLayout)

section

variable [UnicodeTables] (b3 : Bytes → Blake3Hex) (identity : Text → Text → Bytes)
  (remote : Text × List Component → Bytes)

-- An action as it was executed.
structure Turn where
  action : Action
  start : World
  ran : Ran World ApplyError ApplyReport

def turnsOf (ctx : ApplyCtx) (ds : DesiredState) (moves : Nat → Move World) :
    List Action → ApplyReport → Nat → World → List Turn
  | [], _, _, _ => []
  | action :: rest, report, turn, w =>
      let ran := applyAction ctx b3 identity remote ds report action moves turn w
      { action, start := w, ran } ::
        match ran.outcome with
        | .Done report => turnsOf ctx ds moves rest report ran.turn ran.world
        | _ => []

-- A run of one plan, and what happens before it.
structure Run where
  before : World → World := id
  ctx : ApplyCtx
  plan : Artifact
  active : Blake3Hex
  moves : Nat → Move World := fun _ => {}

def Run.turns (run : Run) (w : World) : List Turn :=
  if run.active ≠ run.plan.desiredStateB3 then []
  else match run.plan.desiredState with
    | .error _ => []
    | .ok ds => turnsOf b3 identity remote run.ctx ds run.moves run.plan.actions {} 0 w

def Run.ran (run : Run) (w : World) : Ran World ApplyError ApplyReport :=
  apply run.ctx b3 identity remote run.plan run.active run.moves 0 w

-- The actions of all the runs, in the order in which they were executed.
def history : List Run → World → List Turn
  | [], _ => []
  | run :: rest, w =>
      run.turns b3 identity remote (run.before w) ++
        history rest (run.ran b3 identity remote (run.before w)).world

end

section

variable [UnicodeTables] {b3 : Bytes → Blake3Hex} {identity : Text → Text → Bytes}
  {remote : Text × List Component → Bytes}

section Actions

variable {root : Text} {own : StagingLayout} {ctx : ApplyCtx} {ds : DesiredState}

theorem watched_satisfyWants (wants : List Row) :
    Watched (staying b3 identity root own) (satisfyWants wants) := by
  induction wants with
  | nil => exact watched_pure _
  | cons want rest ih => exact Watched.bind (watched_onJobs _) fun _ => ih

theorem watched_controlled {answer : ApplyReport → Prog World ApplyError ApplyReport}
    (h : ∀ report, Watched (staying b3 identity root own) (answer report)) (report : ApplyReport) :
    Watched (staying b3 identity root own) (controlled ctx answer report) :=
  watched_ite (h report) (watched_pure _)

-- An action that copies nothing touches no staged file.
theorem watched_applyAction {action : Action} (hcopy : ∀ copy, action ≠ .Copy copy)
    (report : ApplyReport) :
    Watched (staying b3 identity root own)
      (applyAction ctx b3 identity remote ds report action) := by
  have hask : ∀ report : ApplyReport, Watched (staying b3 identity root own) (do
      ask fun _ => ()
      pure report) := fun report => Watched.bind (watched_ask _) fun _ => watched_pure _
  cases action with
  | Copy copy => exact absurd rfl (hcopy copy)
  | Skip titleId reason =>
      cases titleId with
      | none => exact Watched.bind (watched_pure _) fun _ => watched_pure _
      | some id =>
          have hwants : Watched (staying b3 identity root own) (satisfyOpenWant id) :=
            Watched.bind (watched_onJobs _) fun _ => watched_satisfyWants _
          unfold applyAction
          exact watched_ite (Watched.bind hwants fun _ => watched_pure _) (watched_pure _)
  | Review remote reason => exact watched_pure _
  | Unmonitor titleId =>
      unfold applyAction
      refine watched_controlled (fun report => ?_) report
      exact Watched.bind (watched_ask _).attempt fun _ => watched_pure _
  | DeleteRemote remote =>
      unfold applyAction
      refine watched_controlled (fun report => ?_) report
      exact Watched.bind (watched_ask _) fun _ => watched_pure _
  | Encode titleId => exact watched_pure _
  | Reclaim => exact watched_pure _
  | EdgeApply => exact watched_controlled hask report
  | GrabApply => exact watched_controlled hask report

theorem tracks_applyAction (action : Action) (report : ApplyReport) :
    Tracks (applyAction ctx b3 identity remote ds report action) := by
  by_cases hcopy : ∃ copy, action = .Copy copy
  · obtain ⟨copy, rfl⟩ := hcopy
    refine tracks_ite (tracks_pure _) ?_
    refine Tracks.bind tracks_applyCopy.attempt fun result => ?_
    split
    · exact tracks_throw _
    · exact tracks_pure _
  · have hwatched : Watched (staying b3 identity [] (.fromStaged []))
        (applyAction ctx b3 identity remote ds report action) :=
      watched_applyAction (fun copy h => hcopy ⟨copy, h⟩) report
    exact hwatched.tracks

theorem runs_applyAction {a : Plan.Copy} {name : Text} (ha : finalName a = some name)
    (hroot : ctx.libraryRoot = root) (action : Action) (report : ApplyReport) :
    Runs worldOf (staying b3 identity root (layoutOf root a.titleId name))
      (fun w => ∀ copy, action = .Copy copy → Spares root a name copy w)
      (applyAction ctx b3 identity remote ds report action) (fun _ _ => True) fun _ => True := by
  by_cases hcopy : ∃ copy, action = .Copy copy
  · obtain ⟨copy, rfl⟩ := hcopy
    refine runs_ite (fun _ => runs_pure fun _ _ => trivial) fun _ => ?_
    have hrun : Runs worldOf (staying b3 identity root (layoutOf root a.titleId name))
        (fun w => ∀ other, Action.Copy copy = .Copy other → Spares root a name other w)
        (applyCopy ctx copy b3 identity remote ds.rangeLen).attempt (fun _ _ => True)
        fun _ => True :=
      Runs.attempt <| (runs_applyCopy ha hroot).mono (fun _ hw => hw copy rfl) (fun _ _ h => h)
        fun _ h => ⟨h, fun _ => h⟩
    refine Runs.bind hrun fun result => ?_
    split
    · exact runs_throw fun _ h => h
    · exact runs_pure fun _ h => h
  · have hwatched : Watched (staying b3 identity root (layoutOf root a.titleId name))
        (applyAction ctx b3 identity remote ds report action) :=
      watched_applyAction (fun copy h => hcopy ⟨copy, h⟩) report
    exact hwatched.safe.runs _ _

end Actions

section Linked

variable {own : StagingLayout}

-- From one world to another by turns, with nothing between them that touches the file.
def Linked (own : StagingLayout) : World → List Turn → World → Prop
  | w, [], w' => Stays own w w'
  | w, t :: turns, w' => Stays own w t.start ∧ Linked own t.ran.world turns w'

theorem Linked.after {w w' last : World} {turns : List Turn} (h : Stays own w w')
    (hlinked : Linked own w' turns last) : Linked own w turns last := by
  cases turns with
  | nil => exact h.trans hlinked
  | cons t turns => exact ⟨h.trans hlinked.1, hlinked.2⟩

theorem Linked.append {w w' last : World} {turns turns' : List Turn} (h : Linked own w turns w')
    (h' : Linked own w' turns' last) : Linked own w (turns ++ turns') last := by
  induction turns generalizing w with
  | nil => exact Linked.after h h'
  | cons t turns ih => exact ⟨h.1, ih h.2⟩

theorem Linked.drop {w last : World} {first turns : List Turn}
    (h : Linked own w (first ++ turns) last) : ∃ w', Linked own w' turns last := by
  induction first generalizing w with
  | nil => exact ⟨w, h⟩
  | cons t first ih => exact ih h.2

theorem Linked.take {w last : World} {turns later : List Turn}
    (h : Linked own w (turns ++ later) last) : ∃ w', Linked own w turns w' := by
  induction turns generalizing w with
  | nil => exact ⟨w, Stays.refl own w⟩
  | cons t turns ih =>
      obtain ⟨w', hrest⟩ := ih h.2
      exact ⟨w', h.1, hrest⟩

theorem linked_turnsOf (ctx : ApplyCtx) (ds : DesiredState) (moves : Nat → Move World)
    (actions : List Action) (report : ApplyReport) (turn : Nat) (w : World) :
    Linked own w (turnsOf b3 identity remote ctx ds moves actions report turn w)
      (applyActions ctx b3 identity remote ds actions report moves turn w).world := by
  induction actions generalizing report turn w with
  | nil => exact Stays.refl own w
  | cons action rest ih =>
      simp only [applyActions, Bind.bind, turnsOf]
      refine ⟨Stays.refl own w, ?_⟩
      cases (applyAction ctx b3 identity remote ds report action moves turn w).outcome with
      | Done report => exact ih _ _ _
      | Failed e => exact Stays.refl own _
      | Stopped => exact Stays.refl own _

theorem linked_run (run : Run) (w : World) :
    Linked own w (run.turns b3 identity remote w) (run.ran b3 identity remote w).world := by
  unfold Run.turns Run.ran apply
  by_cases hactive : run.active = run.plan.desiredStateB3
  · rw [if_neg (not_not.mpr hactive), if_neg (not_not.mpr hactive)]
    cases run.plan.desiredState with
    | error message => exact Stays.refl own w
    | ok ds => exact linked_turnsOf ..
  · rw [if_pos hactive, if_pos hactive]
    exact Stays.refl own w

theorem linked_history {runs : List Run} (hbefore : ∀ run ∈ runs, ∀ w, Stays own w (run.before w))
    (w : World) : ∃ last, Linked own w (history b3 identity remote runs w) last := by
  induction runs generalizing w with
  | nil => exact ⟨w, Stays.refl own w⟩
  | cons run rest ih =>
      obtain ⟨last, hlast⟩ := ih (fun other hother => hbefore other (List.mem_cons_of_mem _ hother))
        (run.ran b3 identity remote (run.before w)).world
      exact ⟨last, Linked.after (hbefore run List.mem_cons_self w)
        ((linked_run run _).append hlast)⟩

-- What every turn keeps stays from the first to the last.
theorem Linked.stays {w last : World} {turns : List Turn} (h : Linked own w turns last)
    (hturns : ∀ t ∈ turns, (∀ call ∈ t.ran.calls, Stays own t.start call.2) ∧
      Stays own t.start t.ran.world) :
    ∀ t ∈ turns, (∀ call ∈ t.ran.calls, Stays own w call.2) ∧ Stays own w t.ran.world := by
  induction turns generalizing w with
  | nil => exact fun _ ht => (nomatch ht)
  | cons first rest ih =>
      obtain ⟨hfirst, hrest⟩ := h
      obtain ⟨hcalls, hworld⟩ := hturns first List.mem_cons_self
      intro t ht
      rcases List.mem_cons.mp ht with rfl | ht
      · exact ⟨fun call hcall => hfirst.trans (hcalls call hcall), hfirst.trans hworld⟩
      · obtain ⟨hlater, hend⟩ := ih hrest
          (fun other hother => hturns other (List.mem_cons_of_mem _ hother)) t ht
        have hstart := hfirst.trans hworld
        exact ⟨fun call hcall => hstart.trans (hlater call hcall), hstart.trans hend⟩

end Linked

section Turns

theorem mem_turnsOf {ctx : ApplyCtx} {ds : DesiredState} {moves : Nat → Move World}
    {actions : List Action} {report : ApplyReport} {turn : Nat} {w : World} {t : Turn}
    (h : t ∈ turnsOf b3 identity remote ctx ds moves actions report turn w) :
    ∃ report turn,
      t.ran = applyAction ctx b3 identity remote ds report t.action moves turn t.start := by
  induction actions generalizing report turn w with
  | nil => cases h
  | cons action rest ih =>
      rcases List.mem_cons.mp h with rfl | h
      · exact ⟨report, turn, rfl⟩
      · split at h
        · exact ih h
        · cases h

theorem mem_history {runs : List Run} {w : World} {t : Turn}
    (h : t ∈ history b3 identity remote runs w) :
    ∃ run ∈ runs, ∃ ds report turn,
      t.ran = applyAction run.ctx b3 identity remote ds report t.action run.moves turn t.start := by
  induction runs generalizing w with
  | nil => cases h
  | cons run rest ih =>
      rcases List.mem_append.mp h with h | h
      · unfold Run.turns at h
        split at h
        · cases h
        · split at h
          · cases h
          · rename_i ds _
            obtain ⟨report, turn, hran⟩ := mem_turnsOf h
            exact ⟨run, List.mem_cons_self, ds, report, turn, hran⟩
      · obtain ⟨other, hother, hran⟩ := ih h
        exact ⟨other, List.mem_cons_of_mem _ hother, hran⟩

-- One turn: every world it passes through has the file as its start had it.
theorem turn_stays {root : Text} {ctx : ApplyCtx} {ds : DesiredState} {moves : Nat → Move World}
    {a : Plan.Copy} {name : Text} (ha : finalName a = some name) (hroot : ctx.libraryRoot = root)
    (hmoves : ∀ n w, Quiet b3 identity root w ((moves n).outside w)) {action : Action}
    {w : World} (hspares : ∀ copy, action = .Copy copy → Spares root a name copy w)
    (report : ApplyReport) (turn : Nat) :
    let ran := applyAction ctx b3 identity remote ds report action moves turn w
    (∀ call ∈ ran.calls, Stays (layoutOf root a.titleId name) w call.2) ∧
      Stays (layoutOf root a.titleId name) w ran.world := by
  obtain ⟨hfit, hname, -⟩ := finalName_fits ha
  have hrun : Runs worldOf (staying b3 identity root (layoutOf root a.titleId name))
      (fun w => ∀ copy, action = .Copy copy → Spares root a name copy w)
      (applyAction ctx b3 identity remote ds report action) (fun _ _ => True) fun _ => True :=
    runs_applyAction ha hroot action report
  obtain ⟨hkept, -⟩ := hrun [] w hspares moves turn hmoves
  refine (tracks_applyAction action report moves turn w).related (Stays.refl _)
    (fun _ _ _ h h' => h.trans h') (fun n s => (hmoves n s).stays hfit hname) ?_
  intro call hcall
  obtain ⟨past, hcall⟩ := hkept.mem hcall
  exact hcall

-- However many plans are run, and however their calls end: over any stretch of actions
-- that all spare the staged file of `a`, its partial file and its sidecar are what they
-- were at the start of it, in every world the stretch passes through.
theorem partial_stays {root : Text} {a : Plan.Copy} {name : Text} (ha : finalName a = some name)
    (runs : List Run) (w : World) (hroot : ∀ run ∈ runs, run.ctx.libraryRoot = root)
    (hmoves : ∀ run ∈ runs, ∀ n w, Quiet b3 identity root w ((run.moves n).outside w))
    (hbefore : ∀ run ∈ runs, ∀ w, Stays (layoutOf root a.titleId name) w (run.before w))
    (earlier later stretch : List Turn) (first : Turn)
    (hhistory : history b3 identity remote runs w = earlier ++ (first :: stretch) ++ later)
    (hspares : ∀ turn ∈ first :: stretch, ∀ copy, turn.action = .Copy copy →
      Spares root a name copy turn.start) :
    ∀ turn ∈ first :: stretch,
      (∀ call ∈ turn.ran.calls, Stays (layoutOf root a.titleId name) first.start call.2) ∧
        Stays (layoutOf root a.titleId name) first.start turn.ran.world := by
  have hturns : ∀ turn ∈ first :: stretch,
      (∀ call ∈ turn.ran.calls, Stays (layoutOf root a.titleId name) turn.start call.2) ∧
        Stays (layoutOf root a.titleId name) turn.start turn.ran.world := by
    intro turn hturn
    have hmem : turn ∈ history b3 identity remote runs w := by
      rw [hhistory]
      exact List.mem_append_left _ (List.mem_append_right _ hturn)
    obtain ⟨run, hrun, ds, report, n, hran⟩ := mem_history hmem
    rw [hran]
    exact turn_stays ha (hroot run hrun) (hmoves run hrun) (hspares turn hturn) report n
  obtain ⟨last, hlinked⟩ := @linked_history _ b3 identity remote _ runs hbefore w
  rw [hhistory] at hlinked
  obtain ⟨_, hbegun⟩ := hlinked.take
  obtain ⟨w', hstretch⟩ := hbegun.drop
  have hfrom : Linked (layoutOf root a.titleId name) first.start (first :: stretch) _ :=
    ⟨Stays.refl _ _, hstretch.2⟩
  exact hfrom.stays hturns

end Turns

end

namespace Sample

open Transfer.StagedSample (album show_ episode song)

def digest : Blake3Hex := ⟨List.replicate 64 '0', hex_zeros⟩

def b3 (_ : Bytes) : Blake3Hex := digest

def identity (_ _ : Text) : Bytes := []

def remote (_ : Text × List Component) : Bytes := [1, 2, 3]

def ref (path : Text) (h : RemoteRef.check "seed" path = .ok ()) : RemoteRef := ⟨"seed", path, h⟩

def first : @Plan.Copy UnicodeTables.ascii :=
  @Plan.Copy.mk UnicodeTables.ascii show_ (ref "e1.mkv" (by decide)) 3 (episode 1)

def second : @Plan.Copy UnicodeTables.ascii :=
  @Plan.Copy.mk UnicodeTables.ascii show_ (ref "e2.mkv" (by decide)) 3 (episode 2)

def track : @Plan.Copy UnicodeTables.ascii :=
  @Plan.Copy.mk UnicodeTables.ascii album (ref "t1.flac" (by decide)) 3 (song 1)

def name : Text := "Show.(2000).S01E01.mkv"

def empty : @World UnicodeTables.ascii :=
  @World.mk UnicodeTables.ascii {
    files := {
      dir := []
      data := fun _ => []
      next := 0
      distinct := List.nodup_nil
      bound := Files.bound_none }
    sidecars := fun _ => .Absent } (fun _ => .Absent) [] []

def ctx : ApplyCtx := { libraryRoot := "/library", concurrency := 1, control := false }

def ds : DesiredState := { lock := false, rangeLen := 2 }

-- The remote goes away before the second range of the first file.
def lost (turn : Nat) : Move (@World UnicodeTables.ascii) :=
  { fate := if turn = 23 then .Fails 0 else .Goes }

def run (copies : List (@Plan.Copy UnicodeTables.ascii)) : @Run UnicodeTables.ascii :=
  @Run.mk UnicodeTables.ascii id ctx
    (@Artifact.mk UnicodeTables.ascii digest (.ok ds) (copies.map (@Action.Copy UnicodeTables.ascii)))
    digest lost

def fresh : @ApplyReport UnicodeTables.ascii :=
  @ApplyReport.mk UnicodeTables.ascii 0 0 0 [] [] [] 0 0 0

def report : @ApplyReport UnicodeTables.ascii :=
  @ApplyReport.mk UnicodeTables.ascii 0 0 0 []
    [@CopyFailure.mk UnicodeTables.ascii show_
      (@Plan.Copy.remote UnicodeTables.ascii first) "transfer: rpc"] [] 0 0 0

def failed : Ran (@World UnicodeTables.ascii) ApplyError (@ApplyReport UnicodeTables.ascii) :=
  @applyAction UnicodeTables.ascii ctx b3 identity remote ds fresh
    (@Action.Copy UnicodeTables.ascii first) lost 0 empty

def other (copy : @Plan.Copy UnicodeTables.ascii) :
    Ran (@World UnicodeTables.ascii) ApplyError (@ApplyReport UnicodeTables.ascii) :=
  @applyAction UnicodeTables.ascii ctx b3 identity remote ds report
    (@Action.Copy UnicodeTables.ascii copy) lost failed.turn failed.world

def failedTurn : @Turn UnicodeTables.ascii :=
  @Turn.mk UnicodeTables.ascii (@Action.Copy UnicodeTables.ascii first) empty failed

def nextTurn (copy : @Plan.Copy UnicodeTables.ascii) : @Turn UnicodeTables.ascii :=
  @Turn.mk UnicodeTables.ascii (@Action.Copy UnicodeTables.ascii copy) failed.world (other copy)

def layout : StagingLayout := @layoutOf UnicodeTables.ascii "/library" show_ name

def reported (ran : Ran (@World UnicodeTables.ascii) ApplyError (@ApplyReport UnicodeTables.ascii)) :
    Option (@ApplyReport UnicodeTables.ascii) :=
  match ran.outcome with
  | .Done report => some report
  | _ => none

theorem failed_reports : failed.outcome = .Done report := by
  have hreported : reported failed = some report := by decide +kernel
  unfold reported at hreported
  split at hreported
  · rename_i found hfound
    rw [hfound, Option.some_inj.mp hreported]
  · cases hreported

theorem history_run (copy : @Plan.Copy UnicodeTables.ascii) :
    @history UnicodeTables.ascii b3 identity remote [run [first, copy]] empty =
      [failedTurn, nextTurn copy] := by
  let := UnicodeTables.ascii
  have hfailed : applyAction ctx b3 identity remote ds fresh (.Copy first) lost 0 empty = failed :=
    failed.eq_def.symm
  have hother : applyAction ctx b3 identity remote ds report (.Copy copy) lost failed.turn
      failed.world = other copy := (other.eq_def copy).symm
  have hturns : turnsOf b3 identity remote ctx ds lost [.Copy first, .Copy copy] fresh 0 empty =
      [failedTurn, nextTurn copy] := by
    rw [turnsOf]
    simp only [hfailed, failed_reports]
    rw [turnsOf]
    simp only [hother, failedTurn, nextTurn]
    cases (other copy).outcome <;> rfl
  have hrun : (run [first, copy]).turns b3 identity remote empty =
      turnsOf b3 identity remote ctx ds lost [.Copy first, .Copy copy] fresh 0 empty := by
    unfold Run.turns
    rw [if_neg fun h => h rfl]
    rfl
  rw [history, history, List.append_nil]
  exact hrun.trans hturns

end Sample

-- A track of an album leaves them where they are.
open Sample in
theorem partial_stays_other_title :
    let := UnicodeTables.ascii
    history b3 identity remote [run [first, track]] empty = [failedTurn, nextTurn track] ∧
      Stays layout (nextTurn track).start (nextTurn track).ran.world := by
  intro _
  refine ⟨history_run track, ?_⟩
  have hquiet : ∀ w : World, Quiet b3 identity ctx.libraryRoot w w := fun w =>
    ⟨Files.Apart.refl _ _, fun _ _ => rfl, rfl, rfl⟩
  have hone : ∀ r ∈ [run [first, track]], r = run [first, track] := fun r hr =>
    List.mem_singleton.mp hr
  have hroot : ∀ r ∈ [run [first, track]], r.ctx.libraryRoot = ctx.libraryRoot :=
    fun r hr => by rw [hone r hr]; rfl
  have hmoves : ∀ r ∈ [run [first, track]], ∀ n w,
      Quiet b3 identity ctx.libraryRoot w ((r.moves n).outside w) :=
    fun r hr n w => by rw [hone r hr]; exact hquiet w
  have hbefore : ∀ r ∈ [run [first, track]], ∀ w, Stays layout w (r.before w) :=
    fun r hr w => by rw [hone r hr]; exact Stays.refl _ w
  have hname : finalName first = some name := by decide +kernel
  have hspares : ∀ turn ∈ [nextTurn track], ∀ copy, turn.action = .Copy copy →
      Spares ctx.libraryRoot first name copy turn.start := by
    intro turn hturn copy hcopy
    rw [List.mem_singleton.mp hturn] at hcopy
    cases hcopy
    have htitle : track.titleId ≠ first.titleId := by decide +kernel
    exact ⟨.inl htitle, fun hsame => absurd hsame htitle⟩
  have hstays := partial_stays hname [run [first, track]] empty hroot hmoves hbefore
    [failedTurn] [] [] (nextTurn track) (history_run track) hspares
  exact (hstays (nextTurn track) List.mem_cons_self).2

-- The second episode of a series takes the partial file of the first with it.
theorem failed_copy_loses_partial :
    let := UnicodeTables.ascii
    ∃ failed other : Turn,
      history Sample.b3 Sample.identity Sample.remote [Sample.run [Sample.first, Sample.second]]
        Sample.empty = [failed, other] ∧
      failed.ran.outcome = .Done Sample.report ∧
      other.start.volume.files.content Sample.layout.partialPath = some [1, 2, 0] ∧
      other.start.volume.sidecars Sample.layout.sidecar ≠ .Absent ∧
      other.ran.world.volume.files.content Sample.layout.partialPath = none ∧
      other.ran.world.volume.sidecars Sample.layout.sidecar = .Absent := by
  intro _
  refine ⟨_, _, Sample.history_run Sample.second, Sample.failed_reports, ?_⟩
  decide +kernel

end Mediaops.Apply
