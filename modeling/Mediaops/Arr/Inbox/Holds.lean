import Mediaops.Arr.Inbox.Paging

namespace Mediaops.Arr.Inbox

-- A hold that is rejected: which records leave which queue.

section

variable [UnicodeTables] (titleDigest : Text → Text) (now : Int) (key : HoldKey)

-- The records that a rejection is about to leave in a queue, when it has gone through
-- those of `front`.
def swept (front rest : List Json) : List Json :=
  front.filter (fun record => !isHeld titleDigest now key record) ++ rest

def Site.withQueue (site : Site) (queue : List Json) : Site := { site with queue }

def sweptSites (sites : Sites) (app : App) (front rest : List Json) : Sites :=
  Function.update sites app ((sites app).withQueue (swept titleDigest now key front rest))

-- A request that writes asks for a record of the hold to be taken off the queue it is in.
def Proper (sites : Sites) (log : List (Request × Option Response)) : Prop :=
  ∀ entry ∈ log, entry.1.method = .Get ∨
    ∃ record ∈ (sites entry.1.app).queue, isHeld titleDigest now key record = true ∧
      ∃ id, queueRecordId record = some id ∧ entry.1.method = .Delete ∧
        entry.1.target = .Queued id rejectQuery

def DistinctIds (sites : Sites) : Prop := ∀ app, ((sites app).queue.filterMap queueRecordId).Nodup

-- Nothing is left of the hold in a queue.
def Rid (sites : Sites) (app : App) : Prop :=
  ∀ record ∈ (sites app).queue, isHeld titleDigest now key record = false

section Sweep

variable {titleDigest now key} {sites : Sites} {app : App} {front rest : List Json} {record : Json}

theorem swept_kept (h : isHeld titleDigest now key record = false) :
    swept titleDigest now key (front ++ [record]) rest =
      swept titleDigest now key front (record :: rest) := by
  simp [swept, h]

theorem swept_held (h : isHeld titleDigest now key record = true) :
    swept titleDigest now key (front ++ [record]) rest = swept titleDigest now key front rest := by
  simp [swept, h]

theorem swept_all (queue : List Json) (h : ∀ record ∈ front, isHeld titleDigest now key record = false) :
    swept titleDigest now key front queue = front ++ queue := by
  rw [swept, List.filter_eq_self.mpr fun record hrecord => by rw [h record hrecord]; rfl]

theorem sweptSites_self (h : ∀ record ∈ front, isHeld titleDigest now key record = false)
    (hqueue : (sites app).queue = front ++ rest) :
    sweptSites titleDigest now key sites app front rest = sites := by
  rw [sweptSites, swept_all rest h, ← hqueue]
  exact Function.update_eq_self _ _

theorem sweptSites_app :
    sweptSites titleDigest now key sites app front rest app =
      (sites app).withQueue (swept titleDigest now key front rest) := Function.update_self _ _ _

-- The id of a record is that of no other in its queue.
theorem filter_id {id : Int} (hqueue : (sites app).queue = front ++ record :: rest)
    (hdistinct : DistinctIds sites) (hid : queueRecordId record = some id) :
    (swept titleDigest now key front (record :: rest)).filter
        (fun item => queueRecordId item ≠ some id) = swept titleDigest now key front rest := by
  have hnodup := hdistinct app
  rw [hqueue, List.filterMap_append, List.filterMap_cons_some hid, List.nodup_append] at hnodup
  obtain ⟨-, hback, hcross⟩ := hnodup
  have hfront : ∀ item ∈ front, queueRecordId item ≠ some id := by
    intro item hitem hsame
    exact hcross id (List.mem_filterMap.mpr ⟨item, hitem, hsame⟩) id List.mem_cons_self rfl
  have hrest : ∀ item ∈ rest, queueRecordId item ≠ some id := by
    intro item hitem hsame
    exact (List.nodup_cons.mp hback).1 (List.mem_filterMap.mpr ⟨item, hitem, hsame⟩)
  unfold swept
  rw [List.filter_append, List.filter_cons_of_neg (by simp [hid])]
  congr 1
  · refine List.filter_eq_self.mpr fun item hitem => decide_eq_true ?_
    exact hfront item (List.mem_filter.mp hitem).1
  · exact List.filter_eq_self.mpr fun item hitem => decide_eq_true (hrest item hitem)

theorem serve_delete {id : Int} (hqueue : (sites app).queue = front ++ record :: rest)
    (hdistinct : DistinctIds sites) (hid : queueRecordId record = some id) :
    serve { app, method := .Delete, target := .Queued id rejectQuery }
        (sweptSites titleDigest now key sites app front (record :: rest)) =
      ({ status := 200 }, sweptSites titleDigest now key sites app front rest) := by
  have hmem : some id ∈ (swept titleDigest now key front (record :: rest)).map queueRecordId := by
    refine List.mem_map.mpr ⟨record, ?_, hid⟩
    exact List.mem_append_right _ List.mem_cons_self
  have hserve : ((sites app).withQueue (swept titleDigest now key front (record :: rest))).serve
      { app, method := .Delete, target := .Queued id rejectQuery } =
      ({ status := 200 }, (sites app).withQueue (swept titleDigest now key front rest)) := by
    refine (if_pos hmem).trans (congrArg _ ?_)
    rw [← filter_id hqueue hdistinct hid]
    rfl
  unfold serve
  rw [sweptSites_app, hserve]
  exact congrArg _ (Function.update_idem _ _ _)

theorem Proper.read {log : List (Request × Option Response)} (h : Proper titleDigest now key sites log)
    {request : Request} (hget : request.method = .Get) (answer : Option Response) :
    Proper titleDigest now key sites (log ++ [(request, answer)]) := by
  intro entry hentry
  rcases List.mem_append.mp hentry with hentry | hentry
  · exact h entry hentry
  · rw [List.mem_singleton.mp hentry]
    exact .inl hget

theorem Proper.remove {log : List (Request × Option Response)} (h : Proper titleDigest now key sites log)
    {id : Int} (hqueue : (sites app).queue = front ++ record :: rest)
    (hheld : isHeld titleDigest now key record = true) (hid : queueRecordId record = some id)
    (answer : Option Response) :
    Proper titleDigest now key sites
      (log ++ [({ app, method := .Delete, target := .Queued id rejectQuery }, answer)]) := by
  intro entry hentry
  rcases List.mem_append.mp hentry with hentry | hentry
  · exact h entry hentry
  · rw [List.mem_singleton.mp hentry]
    refine .inr ⟨record, ?_, hheld, id, hid, rfl, rfl⟩
    rw [hqueue]
    exact List.mem_append_right _ List.mem_cons_self

end Sweep

-- A rejection that gets its answers and finds ids and pages enough does not fail.
structure Smooth (answered : Prop) (keys : Keys) (sites : Sites) : Prop where
  answers : answered
  short : ∀ app, keys app = true → (sites app).queue.length < PAGE_LIMIT * PAGE_SIZE
  numbered : ∀ app, ∀ record ∈ (sites app).queue, isHeld titleDigest now key record = true →
    queueRecordId record ≠ none

section Rules

variable {answered : Prop} {keys : Keys} {sites : Sites}

-- How far a rejection has come when it fails.
def Halted (answered : Prop) (keys : Keys) (sites : Sites) (net : Net) : Prop :=
  ¬Smooth titleDigest now key answered keys sites ∧ Proper titleDigest now key sites net.log ∧
    ∃ app front rest, (sites app).queue = front ++ rest ∧
      net.state = sweptSites titleDigest now key sites app front rest

def Amid (sites : Sites) (app : App) (front rest : List Json) (net : Net) : Prop :=
  net.state = sweptSites titleDigest now key sites app front rest ∧
    Proper titleDigest now key sites net.log

def Standing (sites : Sites) (net : Net) : Prop :=
  net.state = sites ∧ Proper titleDigest now key sites net.log

-- The application that the hold is found at, the first of those with a key.
def FoundAt (keys : Keys) (sites : Sites) (apps : List App) (app : App) : Prop :=
  ∃ before after, apps = before ++ app :: after ∧ keys app = true ∧
    (∀ other ∈ before, keys other = true → Rid titleDigest now key sites other) ∧
    ¬Rid titleDigest now key sites app

variable {titleDigest now key}

theorem served_delete {app : App} {front rest : List Json} {record : Json} {id : Int}
    (hqueue : (sites app).queue = front ++ record :: rest) (hdistinct : DistinctIds sites)
    (hheld : isHeld titleDigest now key record = true) (hid : queueRecordId record = some id) :
    Remote.Served answered (Amid titleDigest now key sites app front (record :: rest))
      (json { app, method := .Delete, target := .Queued id rejectQuery })
      (fun _ => Amid titleDigest now key sites app (front ++ [record]) rest)
      (Halted titleDigest now key answered keys sites) := by
  have hmiddle : (sites app).queue = (front ++ [record]) ++ rest := by simp [hqueue]
  have hswept : sweptSites titleDigest now key sites app front rest =
      sweptSites titleDigest now key sites app (front ++ [record]) rest := by
    rw [sweptSites, sweptSites, swept_held hheld]
  apply served_json
  · intro net ⟨hstate, hlog⟩
    rw [hstate, serve_delete hqueue hdistinct hid, hswept]
    exact ⟨rfl, hlog.remove hqueue hheld hid _⟩
  · intro hnot net ⟨hstate, hlog⟩
    have hsmooth : ¬Smooth titleDigest now key answered keys sites := fun h => hnot h.answers
    rw [hstate, serve_delete hqueue hdistinct hid, hswept]
    exact ⟨⟨hsmooth, hlog.remove hqueue hheld hid _, app, front, record :: rest, hqueue, rfl⟩,
      hsmooth, hlog.remove hqueue hheld hid _, app, front ++ [record], rest, hmiddle, rfl⟩

-- The induction is on the records that are still to be looked at.
theorem served_holdRejectQueue (app : App) (hdistinct : DistinctIds sites) (rest : List Json) :
    ∀ (front : List Json) (deleted : Bool), (sites app).queue = front ++ rest →
      deleted = front.any (isHeld titleDigest now key) →
      Remote.Served answered (Amid titleDigest now key sites app front rest)
        (holdRejectQueue titleDigest now key app rest deleted)
        (fun found net => found = (sites app).queue.any (isHeld titleDigest now key) ∧
          Amid titleDigest now key sites app (sites app).queue [] net)
        (Halted titleDigest now key answered keys sites) := by
  induction rest with
  | nil =>
      intro front deleted hqueue hdeleted
      rw [List.append_nil] at hqueue
      rw [hqueue]
      exact runs_pure fun _ hnet => ⟨hdeleted, hnet⟩
  | cons record rest ih =>
      intro front deleted hqueue hdeleted
      have hmiddle : (sites app).queue = (front ++ [record]) ++ rest := by simp [hqueue]
      have hany : (front ++ [record]).any (isHeld titleDigest now key) =
          (front.any (isHeld titleDigest now key) || isHeld titleDigest now key record) := by simp
      rw [holdRejectQueue]
      by_cases hheld : isHeld titleDigest now key record = true
      · rw [if_pos hheld]
        cases hid : queueRecordId record with
        | none =>
            refine runs_throw fun net hnet => ⟨fun hsmooth => ?_, hnet.2, app, front, record :: rest,
              hqueue, hnet.1⟩
            refine hsmooth.numbered app record ?_ hheld hid
            rw [hqueue]
            exact List.mem_append_right _ List.mem_cons_self
        | some id =>
            apply (served_delete hqueue hdistinct hheld hid).bind
            intro _
            exact ih _ _ hmiddle (by rw [hany, hheld, Bool.or_true])
      · rw [if_neg hheld]
        have hkept := Bool.eq_false_iff.mpr hheld
        have hrest := ih _ deleted hmiddle (by rw [hany, hkept, Bool.or_false, hdeleted])
        apply hrest.mono _ (fun _ _ hnet => hnet) fun _ hnet => hnet
        intro net hnet
        unfold Amid sweptSites at hnet ⊢
        rwa [swept_kept hkept]

theorem rid_of_any {app : App}
    (h : (sites app).queue.any (isHeld titleDigest now key) = false) : Rid titleDigest now key sites app := by
  intro record hrecord
  exact Bool.eq_false_iff.mpr (List.any_eq_false.mp h record hrecord)

theorem amid_rid {app : App} (h : Rid titleDigest now key sites app) {net : Net}
    (hnet : Amid titleDigest now key sites app (sites app).queue [] net) :
    Standing titleDigest now key sites net := by
  unfold Amid at hnet
  rwa [sweptSites_self h (List.append_nil _).symm] at hnet

theorem amid_start (app : App) {net : Net} (hnet : Standing titleDigest now key sites net) :
    Amid titleDigest now key sites app [] (sites app).queue net := by
  unfold Amid
  rwa [sweptSites_self (fun _ h => absurd h List.not_mem_nil) (List.nil_append _).symm]

theorem served_queue (app : App) (hkey : keys app = true) :
    Remote.Served answered (Standing titleDigest now key sites)
      (getPagedWith app .Queue (queueExtra app))
      (fun doc net => pagedRecords doc = (sites app).queue ∧ Standing titleDigest now key sites net)
      (Halted titleDigest now key answered keys sites) := by
  have hpaged : Remote.Served answered (Standing titleDigest now key sites)
      (getPagedWith app .Queue (queueExtra app))
      (fun doc net => listed (sites app) .Queue (fun _ => false) = some (pagedRecords doc) ∧
        Standing titleDigest now key sites net)
      (Halted titleDigest now key answered keys sites) := by
    apply served_pagedInner
    · intro net hnet
      rw [hnet.1]
    · intro net extra page answer hnet
      exact ⟨hnet.1, hnet.2.read rfl answer⟩
    · intro hnone net hnet
      refine ⟨fun hsmooth => ?_, hnet.2, app, [], (sites app).queue, rfl, (amid_start app hnet).1⟩
      have hsome : (listed (sites app) .Queue fun _ => false).isSome = true :=
        listed_short _ (hsmooth.short app hkey)
      rw [hnone hsmooth.answers] at hsome
      cases hsome
  exact hpaged.mono (fun _ hnet => hnet) (fun _ _ hnet => ⟨listed_all hnet.1, hnet.2⟩) fun _ hnet => hnet

-- The induction is on the applications that are still to be asked.
theorem served_holdRejectFrom (answered : Prop) (keys : Keys) (hdistinct : DistinctIds sites)
    (apps : List App) :
    ∀ before : List App, (∀ other ∈ before, keys other = true → Rid titleDigest now key sites other) →
      Remote.Served answered (Standing titleDigest now key sites)
        (holdRejectFrom titleDigest now keys key apps)
        (fun found net =>
          if found then ∃ app, FoundAt titleDigest now key keys sites (before ++ apps) app ∧
            Amid titleDigest now key sites app (sites app).queue [] net
          else Standing titleDigest now key sites net ∧
            ∀ app ∈ before ++ apps, keys app = true → Rid titleDigest now key sites app)
        (Halted titleDigest now key answered keys sites) := by
  induction apps with
  | nil =>
      intro before hbefore
      rw [List.append_nil]
      exact runs_pure fun _ hnet => ⟨hnet, hbefore⟩
  | cons app apps ih =>
      intro before hbefore
      have happs : before ++ app :: apps = (before ++ [app]) ++ apps := by simp
      have hnext : (keys app = true → Rid titleDigest now key sites app) →
          ∀ other ∈ before ++ [app], keys other = true → Rid titleDigest now key sites other := by
        intro happ other hother hkey
        rcases List.mem_append.mp hother with hother | hother
        · exact hbefore other hother hkey
        · obtain rfl := List.mem_singleton.mp hother
          exact happ hkey
      rw [holdRejectFrom]
      by_cases hkey : keys app = true
      · rw [if_pos hkey]
        apply (served_queue app hkey).bind
        intro queue
        apply Runs.of_pre (fun _ hnet => hnet.1)
        intro hqueue
        rw [hqueue]
        apply ((served_holdRejectQueue app hdistinct (sites app).queue [] false rfl rfl).mono
          (fun _ hnet => amid_start app hnet.2) (fun _ _ hnet => hnet) fun _ hnet => hnet).bind
        intro found
        apply Runs.of_pre (fun _ hnet => hnet.1)
        intro hfound
        cases found with
        | true =>
            refine runs_pure fun net hnet => ⟨app, ⟨before, apps, rfl, hkey, hbefore, ?_⟩, hnet.2⟩
            intro hrid
            obtain ⟨record, hrecord, hheld⟩ := List.any_eq_true.mp hfound.symm
            rw [hrid record hrecord] at hheld
            cases hheld
        | false =>
            have hrid := rid_of_any hfound.symm
            rw [happs]
            exact (ih _ (hnext fun _ => hrid)).mono (fun _ hnet => amid_rid hrid hnet.2)
              (fun _ _ hnet => hnet) fun _ hnet => hnet
      · rw [if_neg hkey, happs]
        exact ih _ (hnext fun h => absurd h hkey)

end Rules

section Errors

omit [UnicodeTables] in
theorem throws_json (request : Request) : Throws (fun e => e ≠ notInQueue) (json request) := by
  have hstart : ∀ (front text : Text), front.length = 2 → front ≠ "ho".toList →
      ControlError.Runtime (front ++ text) ≠ notInQueue := by
    intro front text hlength hfront hsame
    refine hfront ?_
    have htake := congrArg (List.take 2) (ControlError.Runtime.inj hsame)
    rwa [List.take_left' hlength] at htake
  apply Throws.bind
  · apply throws_perform
    · exact hstart "tr".toList "ansport: ".toList rfl (by decide)
    · intro _ _ _ h
      cases h
  · intro response
    exact throws_ite (throws_throw (hstart "ht".toList ("tp ".toList ++ Text.decimal response.status) rfl
      (by decide))) (throws_pure _)

theorem throws_holdRejectFrom (keys : Keys) (apps : List App) :
    Throws (fun e => e ≠ notInQueue) (holdRejectFrom titleDigest now keys key apps) := by
  have hpaged : ∀ app, Throws (fun e => e ≠ notInQueue) (getPagedWith app .Queue (queueExtra app)) := by
    intro app
    refine Throws.bind (Pages.throws_gather (fun page => ?_) (by decide) _ _ _ _) fun _ => throws_pure _
    exact (throws_json _).bind fun _ => throws_pure _
  have hqueue : ∀ app records deleted,
      Throws (fun e => e ≠ notInQueue) (holdRejectQueue titleDigest now key app records deleted) := by
    intro app records
    induction records with
    | nil => exact fun deleted => throws_pure deleted
    | cons record records ih =>
        intro deleted
        rw [holdRejectQueue]
        refine throws_ite ?_ (ih deleted)
        cases queueRecordId record with
        | none => exact throws_throw (by decide)
        | some id => exact (throws_json _).bind fun _ => ih true
  induction apps with
  | nil => exact throws_pure false
  | cons app apps ih =>
      rw [holdRejectFrom]
      refine throws_ite ?_ ih
      refine (hpaged app).bind fun queue => (hqueue app _ _).bind fun found => ?_
      cases found with
      | true => exact throws_pure true
      | false => exact ih

end Errors

section Listing

variable {titleDigest now key}

theorem holdItemsFromQueue_eq (doc : Json) :
    holdItemsFromQueue titleDigest now doc =
      (pagedRecords doc).filterMap (holdItemFromRecord titleDigest now) := by
  unfold holdItemsFromQueue pagedRecords recordsKey
  cases ((doc.get "records".toList).bind Json.asArray).or doc.asArray <;> rfl

-- The induction is on the applications that are still to be asked.
theorem served_holdListFrom (keys : Keys) (sites : Sites) (apps : List App) :
    Remote.Served False (fun net => net.state = sites) (holdListFrom titleDigest now keys apps)
      (fun items net => items = (apps.filter keys).flatMap (fun app =>
        (sites app).queue.filterMap (holdItemFromRecord titleDigest now)) ∧ net.state = sites)
      (fun net => net.state = sites) := by
  induction apps with
  | nil => exact runs_pure fun _ hnet => ⟨rfl, hnet⟩
  | cons app apps ih =>
      rw [holdListFrom]
      by_cases hkey : keys app = true
      · have hpaged : Remote.Served False (fun net => net.state = sites)
            (getPagedWith app .Queue (queueExtra app))
            (fun doc net => listed (sites app) .Queue (fun _ => false) = some (pagedRecords doc) ∧
              net.state = sites) (fun net => net.state = sites) :=
          served_pagedInner (fun net hnet => by rw [hnet]) (fun _ _ _ _ hnet => hnet)
            fun _ _ hnet => hnet
        rw [if_pos hkey, List.filter_cons_of_pos hkey]
        apply hpaged.bind
        intro doc
        apply Runs.of_pre (fun _ hnet => hnet.1)
        intro hdoc
        apply (ih.mono (fun _ hnet => hnet.2) (fun _ _ hnet => hnet) fun _ hnet => hnet).bind
        intro others
        refine runs_pure fun net hnet => ⟨?_, hnet.2⟩
        rw [holdItemsFromQueue_eq, listed_all hdoc, hnet.1, List.flatMap_cons]
        rfl
      · rw [if_neg hkey, List.filter_cons_of_neg hkey]
        exact ih

-- The record of a hold is the one that is listed under its key.
theorem isHeld_iff {record : Json} : isHeld titleDigest now key record = true ↔
    ∃ item, holdItemFromRecord titleDigest now record = some item ∧
      item.titleId = key.titleId ∧ item.releaseId = key.releaseId := by
  unfold isHeld
  cases holdItemFromRecord titleDigest now record <;> simp

theorem not_rid_iff {sites : Sites} {app : App} : ¬Rid titleDigest now key sites app ↔
    ∃ record ∈ (sites app).queue, isHeld titleDigest now key record = true := by
  simp [Rid]

-- To list the holds changes nothing, and finds what a rejection finds.
theorem holdList_finds (keys : Keys) (sites : Sites) (moves : Nat → Move Net)
    (hmoves : ∀ n, (moves n).outside = id) (turn : Nat) :
    let ran := holdList titleDigest now keys moves turn { state := sites }
    ran.world.state = sites ∧ ∀ items, ran.outcome = .Done items →
      ((∃ item ∈ items, item.titleId = key.titleId ∧ item.releaseId = key.releaseId) ↔
        ∃ app ∈ mediaApps, keys app = true ∧ ¬Rid titleDigest now key sites app) := by
  intro ran
  obtain ⟨hdone, hhalted⟩ := Remote.served_run
    (@served_holdListFrom _ titleDigest now keys sites mediaApps)
    (fun n => ⟨hmoves n, fun hfalse => hfalse.elim⟩) turn (rfl : ({ state := sites } : Net).state = sites)
  by_cases h : ∃ items, ran.outcome = .Done items
  · obtain ⟨items, hitems⟩ := h
    obtain ⟨hlist, hstate⟩ := hdone items hitems
    refine ⟨hstate, fun other hother => ?_⟩
    obtain rfl : items = other := Outcome.Done.inj (hitems.symm.trans hother)
    rw [hlist]
    constructor
    · rintro ⟨item, hitem, hkey⟩
      obtain ⟨app, happ, hitem⟩ := List.mem_flatMap.mp hitem
      obtain ⟨record, hrecord, hsome⟩ := List.mem_filterMap.mp hitem
      obtain ⟨hmem, hset⟩ := List.mem_filter.mp happ
      exact ⟨app, hmem, hset, not_rid_iff.mpr ⟨record, hrecord, isHeld_iff.mpr ⟨item, hsome, hkey⟩⟩⟩
    · rintro ⟨app, hmem, hset, hheld⟩
      obtain ⟨record, hrecord, hheld⟩ := not_rid_iff.mp hheld
      obtain ⟨item, hsome, hkey⟩ := isHeld_iff.mp hheld
      exact ⟨item, List.mem_flatMap.mpr ⟨app, List.mem_filter.mpr ⟨hmem, hset⟩,
        List.mem_filterMap.mpr ⟨record, hrecord, hsome⟩⟩, hkey⟩
  · have hnot : ∀ items, ran.outcome ≠ .Done items := fun items hitems => h ⟨items, hitems⟩
    exact ⟨hhalted hnot, fun items hitems => absurd hitems (hnot items)⟩

end Listing

theorem holdReject_sweeps (keys : Keys) (sites : Sites) (hdistinct : DistinctIds sites)
    (moves : Nat → Move Net) (hmoves : ∀ n, (moves n).outside = id) (turn : Nat) :
    let ran := holdReject titleDigest now keys key moves turn { state := sites }
    Proper titleDigest now key sites ran.world.log ∧
      (∃ app front rest, (sites app).queue = front ++ rest ∧
        ran.world.state = sweptSites titleDigest now key sites app front rest) ∧
      (ran.outcome = .Done () → ∃ app, FoundAt titleDigest now key keys sites mediaApps app ∧
        ran.world.state = sweptSites titleDigest now key sites app (sites app).queue []) ∧
      (ran.outcome = .Failed notInQueue → ran.world.state = sites ∧
        ∀ app ∈ mediaApps, keys app = true → Rid titleDigest now key sites app) ∧
      (Smooth titleDigest now key (∀ n, (moves n).fate = .Goes) keys sites →
        ran.outcome = .Done () ∨ ran.outcome = .Failed notInQueue) := by
  intro ran
  have hstart : Standing titleDigest now key sites { state := sites } :=
    ⟨rfl, fun _ hentry => absurd hentry List.not_mem_nil⟩
  let inner := holdRejectFrom titleDigest now keys key mediaApps moves turn { state := sites }
  obtain ⟨hdone, hhalted⟩ := Remote.served_run
    (served_holdRejectFrom (∀ n, (moves n).fate = .Goes) keys hdistinct mediaApps []
      fun _ h => absurd h List.not_mem_nil)
    (fun n => ⟨hmoves n, fun hgoes => hgoes n⟩) turn hstart
  have hother : ∀ e, inner.outcome = .Failed e → e ≠ notInQueue :=
    throws_holdRejectFrom titleDigest now key keys mediaApps moves turn { state := sites }
  have hnowhere : ∀ app front rest, (sites app).queue = front ++ rest →
      inner.world.state = sweptSites titleDigest now key sites app front rest →
      ∃ app front rest, (sites app).queue = front ++ rest ∧
        inner.world.state = sweptSites titleDigest now key sites app front rest :=
    fun app front rest hqueue hstate => ⟨app, front, rest, hqueue, hstate⟩
  cases ho : inner.outcome with
  | Done found =>
      have hend := hdone found ho
      have hran : ran.outcome = (if found then .Done () else .Failed notInQueue) ∧
          ran.world = inner.world := by
        simp only [ran, holdReject, Bind.bind]
        rw [show (holdRejectFrom titleDigest now keys key mediaApps moves turn
          { state := sites }).outcome = .Done found from ho]
        cases found <;> exact ⟨rfl, rfl⟩
      rw [hran.1, hran.2]
      cases found with
      | true =>
          obtain ⟨app, hfound, hstate, hlog⟩ := hend
          refine ⟨hlog, hnowhere app _ _ (List.append_nil _).symm hstate,
            fun _ => ⟨app, hfound, hstate⟩, fun hfailed => (nomatch hfailed), fun _ => .inl rfl⟩
      | false =>
          obtain ⟨⟨hstate, hlog⟩, hrid⟩ := hend
          refine ⟨hlog, hnowhere .Sonarr [] _ rfl ?_, fun hfailed => (nomatch hfailed),
            fun _ => ⟨hstate, hrid⟩, fun _ => .inr rfl⟩
          exact (amid_start .Sonarr ⟨hstate, hlog⟩).1
  | Failed e =>
      have hran : ran.outcome = .Failed e ∧ ran.world = inner.world := by
        simp only [ran, holdReject, Bind.bind]
        rw [show (holdRejectFrom titleDigest now keys key mediaApps moves turn
          { state := sites }).outcome = .Failed e from ho]
        exact ⟨rfl, rfl⟩
      obtain ⟨hsmooth, hlog, hswept⟩ := hhalted fun found hfound => by
        rw [ho] at hfound
        cases hfound
      rw [hran.1, hran.2]
      refine ⟨hlog, hswept, fun hfailed => (nomatch hfailed), fun hfailed => ?_,
        fun hgoes => absurd hgoes hsmooth⟩
      exact absurd (Outcome.Failed.inj hfailed) (hother e ho)
  | Stopped =>
      have hran : ran.outcome = .Stopped ∧ ran.world = inner.world := by
        simp only [ran, holdReject, Bind.bind]
        rw [show (holdRejectFrom titleDigest now keys key mediaApps moves turn
          { state := sites }).outcome = .Stopped from ho]
        exact ⟨rfl, rfl⟩
      obtain ⟨hsmooth, hlog, hswept⟩ := hhalted fun found hfound => by
        rw [ho] at hfound
        cases hfound
      rw [hran.1, hran.2]
      exact ⟨hlog, hswept, fun hfailed => (nomatch hfailed), fun hfailed => (nomatch hfailed),
        fun hgoes => absurd hgoes hsmooth⟩

-- A rejection takes records of the hold off a queue and does nothing else. Where it
-- comes through, the first application that has the hold is rid of it, and where it finds
-- the hold nowhere, nothing has changed and there was nothing to find. The holds that are
-- listed are those that can be rejected.
theorem hold_reject (keys : Keys) (sites : Sites) (hdistinct : DistinctIds sites)
    (moves : Nat → Move Net) (hmoves : ∀ n, (moves n).outside = id) (turn : Nat) :
    let ran := holdReject titleDigest now keys key moves turn { state := sites }
    let listing := holdList titleDigest now keys moves turn { state := sites }
    Proper titleDigest now key sites ran.world.log ∧
      (∃ app front rest, (sites app).queue = front ++ rest ∧
        ran.world.state = sweptSites titleDigest now key sites app front rest) ∧
      (ran.outcome = .Done () → ∃ app, FoundAt titleDigest now key keys sites mediaApps app ∧
        ran.world.state = sweptSites titleDigest now key sites app (sites app).queue []) ∧
      (ran.outcome = .Failed notInQueue → ran.world.state = sites ∧
        ∀ app ∈ mediaApps, keys app = true → Rid titleDigest now key sites app) ∧
      (Smooth titleDigest now key (∀ n, (moves n).fate = .Goes) keys sites →
        ran.outcome = .Done () ∨ ran.outcome = .Failed notInQueue) ∧
      listing.world.state = sites ∧
      ∀ items, listing.outcome = .Done items →
        ((∃ item ∈ items, item.titleId = key.titleId ∧ item.releaseId = key.releaseId) ↔
          ∃ app ∈ mediaApps, keys app = true ∧ ¬Rid titleDigest now key sites app) := by
  intro ran listing
  obtain ⟨hproper, hswept, hdone, hnowhere, hsmooth⟩ :=
    holdReject_sweeps titleDigest now key keys sites hdistinct moves hmoves turn
  exact ⟨hproper, hswept, hdone, hnowhere, hsmooth,
    holdList_finds keys sites moves hmoves turn⟩

end

section Sample

def heldKey : @HoldKey UnicodeTables.ascii :=
  @HoldKey.mk UnicodeTables.ascii TitleId.Sample.matrix "ab12".toList

theorem distinct_heldSites : DistinctIds heldSites := by
  intro app
  cases app <;> decide

theorem rejected_matrix :
    (@holdReject UnicodeTables.ascii id 0 (fun _ => true) heldKey calm 0
      { state := heldSites }).outcome = .Done () := rfl

theorem hold_reject_matrix : ∃ app,
    @FoundAt UnicodeTables.ascii id 0 heldKey (fun _ => true) heldSites mediaApps app ∧
      (@holdReject UnicodeTables.ascii id 0 (fun _ => true) heldKey calm 0
          { state := heldSites }).world.state =
        @sweptSites UnicodeTables.ascii id 0 heldKey heldSites app (heldSites app).queue [] :=
  (@hold_reject UnicodeTables.ascii id 0 heldKey (fun _ => true) heldSites distinct_heldSites calm
    (fun _ => rfl) 0).2.2.1 rejected_matrix

end Sample

end Mediaops.Arr.Inbox
