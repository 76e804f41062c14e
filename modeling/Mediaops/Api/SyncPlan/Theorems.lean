import Mediaops.Api.SyncPlan
import Mediaops.Library.Checks

namespace Mediaops.SyncPlan

-- What the planner knows about an entry it leaves to be queued.

section

variable [UnicodeTables]

-- The way from a listed file to a queued entry, with every check it passed.
structure Planned (remote : RemoteFileStatus) (holds : List HomeObject) (cluster : ClusterSpec)
    (name : Text) (root : PathRoot) (authority : TitleId) (placement : Placement) (holdName : Text)
    (dest : Text) (id : TitleId) : Prop where
  configured : findRoot cluster remote.rootId = some root
  contained : RemoteRef.check remote.rootId remote.relPath = .ok ()
  nonempty : remote.len ≠ 0
  media : isMediaFile remote.relPath = true
  classified : classify remote holds root = .ok (some (authority, placement, holdName))
  rendered : PathSchema.render authority placement = .ok dest
  parsed : PathSchema.parse dest = .ok id
  entry : candidate remote holds cluster name = {
    remoteRoot := remote.rootId
    remotePath := remote.relPath
    fileLen := remote.len
    titleId := id.render
    jobName := jobName id placement
    placement := some placement
    job := some (pullSpec cluster remote name holdName id.render dest)
    disposition := .WouldQueue }

theorem candidate_queue {remote : RemoteFileStatus} {holds : List HomeObject}
    {cluster : ClusterSpec} {name : Text}
    (h : (candidate remote holds cluster name).disposition = .WouldQueue) :
    ∃ root authority placement holdName dest id,
      Planned remote holds cluster name root authority placement holdName dest id := by
  unfold candidate at h
  split at h
  · cases h
  next root hroot =>
    by_cases hcheck : (RemoteRef.check remote.rootId remote.relPath).isOk = false
    · rw [if_pos hcheck] at h
      cases h
    rw [if_neg hcheck] at h
    by_cases hmedia : remote.len = 0 ∨ (!isMediaFile remote.relPath) = true
    · rw [if_pos hmedia] at h
      cases h
    rw [if_neg hmedia] at h
    by_cases hholds : 1 < (holds.filter (holdsSource remote)).length
    · rw [if_pos hholds] at h
      cases h
    rw [if_neg hholds] at h
    have hcontained : RemoteRef.check remote.rootId remote.relPath = .ok () := by
      cases hres : RemoteRef.check remote.rootId remote.relPath with
      | error e => simp [hres, Except.isOk, Except.toBool] at hcheck
      | ok u => rfl
    split at h
    · cases h
    · cases h
    next authority placement holdName hclass =>
      split at h
      · cases h
      next dest hrender =>
        split at h
        · cases h
        next id hparse =>
          push Not at hmedia
          have hfile : isMediaFile remote.relPath = true := by simpa using hmedia.2
          refine ⟨root, authority, placement, holdName, dest, id, hroot, hcontained, hmedia.1, hfile,
            hclass, hrender, hparse, ?_⟩
          unfold candidate
          simp only [hroot, if_neg hcheck, if_neg hholds, hclass, hrender, hparse]
          rw [if_neg (by simp [hmedia.1, hfile])]

end

-- The source a candidate was made from, whatever its disposition.
theorem candidate_source [UnicodeTables] (remote : RemoteFileStatus) (holds : List HomeObject)
    (cluster : ClusterSpec) (name : Text) :
    (candidate remote holds cluster name).remoteRoot = remote.rootId ∧
      (candidate remote holds cluster name).remotePath = remote.relPath ∧
      (candidate remote holds cluster name).fileLen = remote.len := by
  unfold candidate
  repeat' split
  all_goals exact ⟨rfl, rfl, rfl⟩

theorem blockDuplicates_queue {entries : List SyncEntry} {entry : SyncEntry}
    (h : entry ∈ blockDuplicates entries) (hq : entry.disposition = .WouldQueue) :
    entry ∈ entries := by
  obtain ⟨e, he, rfl⟩ := List.mem_map.mp h
  split at hq
  · cases hq
  next hsingle =>
    rw [if_neg hsingle]
    exact he

-- Of two entries with a Job of one name neither is left to be queued.
theorem blockDuplicates_pairwise {entries : List SyncEntry}
    (hjobs : ∀ e ∈ entries, e.disposition = .WouldQueue → e.job.isSome) :
    (blockDuplicates entries).Pairwise fun a b =>
      a.disposition = .WouldQueue → b.disposition = .WouldQueue → a.jobName ≠ b.jobName := by
  unfold blockDuplicates
  rw [List.pairwise_map]
  refine List.pairwise_iff_forall_sublist.mpr fun {a b} hsub => ?_
  intro ha hb
  split at ha
  · cases ha
  next hsingle =>
    split at hb
    · cases hb
    next hsingleB =>
      rw [if_neg hsingle, if_neg hsingleB]
      intro hname
      have haJob := hjobs a (hsub.subset (by simp)) ha
      have hbJob := hjobs b (hsub.subset (by simp)) hb
      have hpair := hsub.filter fun e => e.job.isSome && decide (e.jobName = a.jobName)
      have hboth : ([a, b].filter fun e => e.job.isSome && decide (e.jobName = a.jobName)) =
          [a, b] := by
        simp [haJob, hbJob, hname]
      rw [hboth] at hpair
      have hlength := hpair.length_le
      simp only [List.length_cons, List.length_nil] at hlength
      omega

-- Blocking an entry keeps the remote file behind it.
theorem blockDuplicates_sources (entries : List SyncEntry) :
    (blockDuplicates entries).map (fun e => (e.remoteRoot, e.remotePath, e.fileLen)) =
      entries.map fun e => (e.remoteRoot, e.remotePath, e.fileLen) := by
  unfold blockDuplicates
  rw [List.map_map]
  refine List.map_congr_left fun entry _ => ?_
  simp only [Function.comp_apply]
  split <;> rfl

theorem destinationState_blocked {disk : Disk} {current : Text} {comps : List Component}
    {found : SyncDisposition × Text} (h : destinationState disk current comps = some found) :
    found.1 = .Blocked := by
  induction comps generalizing current with
  | nil => cases h
  | cons comp rest ih =>
      unfold destinationState at h
      split at h
      · cases h
      · next segment tail heq =>
          obtain ⟨-, rfl⟩ := List.cons.inj heq
          dsimp only at h
          split at h
          · split at h
            · exact ih h
            · cases h
              rfl
          · cases h
          · cases h
            rfl
      · cases h
        rfl

section

variable [UnicodeTables]

theorem capture_queue {objects : List HomeObject} {request : HomeObject} {entry : SyncEntry}
    (h : entry ∈ capture objects request) (hq : entry.disposition = .WouldQueue) :
    ∃ status cluster obj remote, request.status = .Sync status ∧ status.cluster = some cluster ∧
      obj ∈ objects ∧ obj.status = .RemoteFile remote ∧
      remote.listGeneration = status.listGeneration ∧
      entry = candidate remote (objects.filter (holdAt status.listGeneration)) cluster
        request.metadata.name := by
  unfold capture at h
  split at h
  · next status hstatus =>
      split at h
      · cases h
      next cluster hcluster =>
        have hmem := blockDuplicates_queue h hq
        rw [(List.perm_insertionSort _ _).mem_iff, List.mem_filterMap] at hmem
        obtain ⟨obj, hobj, hlisted⟩ := hmem
        unfold listedCandidate at hlisted
        split at hlisted
        · next remote hremote =>
            split at hlisted
            · next hgen =>
                exact ⟨status, cluster, obj, remote, hstatus, hcluster, hobj, hremote, hgen,
                  (Option.some.inj hlisted).symm⟩
            · cases hlisted
        · cases hlisted
  · cases h

-- A capture has one entry for each listed file of its generation.
theorem capture_sources {objects : List HomeObject} {request : HomeObject} {status : SyncStatus}
    {cluster : ClusterSpec} (hstatus : request.status = .Sync status)
    (hcluster : status.cluster = some cluster) {source : Text × Text × UInt64} :
    source ∈ (capture objects request).map (fun e => (e.remoteRoot, e.remotePath, e.fileLen)) ↔
      ∃ obj ∈ objects, ∃ remote, obj.status = .RemoteFile remote ∧
        remote.listGeneration = status.listGeneration ∧
        source = (remote.rootId, remote.relPath, remote.len) := by
  have hcapture : capture objects request = blockDuplicates ((objects.filterMap
      (listedCandidate status.listGeneration (objects.filter (holdAt status.listGeneration)) cluster
        request.metadata.name)).insertionSort entryOrder) := by
    simp only [capture, hstatus, hcluster]
  rw [hcapture, blockDuplicates_sources, List.mem_map]
  constructor
  · rintro ⟨entry, hentry, rfl⟩
    rw [(List.perm_insertionSort _ _).mem_iff, List.mem_filterMap] at hentry
    obtain ⟨obj, hobj, hlisted⟩ := hentry
    unfold listedCandidate at hlisted
    split at hlisted
    · next remote hremote =>
        split at hlisted
        · next hgeneration =>
            cases hlisted
            obtain ⟨hroot, hpath, hlen⟩ := candidate_source remote
              (objects.filter (holdAt status.listGeneration)) cluster request.metadata.name
            exact ⟨obj, hobj, remote, hremote, hgeneration, by rw [hroot, hpath, hlen]⟩
        · cases hlisted
    · cases hlisted
  · rintro ⟨obj, hobj, remote, hremote, hgeneration, rfl⟩
    obtain ⟨hroot, hpath, hlen⟩ := candidate_source remote
      (objects.filter (holdAt status.listGeneration)) cluster request.metadata.name
    refine ⟨candidate remote (objects.filter (holdAt status.listGeneration)) cluster
      request.metadata.name, ?_, by rw [hroot, hpath, hlen]⟩
    rw [(List.perm_insertionSort _ _).mem_iff, List.mem_filterMap]
    exact ⟨obj, hobj, by simp only [listedCandidate, hremote, if_pos hgeneration]⟩

theorem capture_pairwise (objects : List HomeObject) (request : HomeObject) :
    (capture objects request).Pairwise fun a b =>
      a.disposition = .WouldQueue → b.disposition = .WouldQueue → a.jobName ≠ b.jobName := by
  unfold capture
  split
  · split
    · exact .nil
    · refine blockDuplicates_pairwise fun e he hq => ?_
      rw [(List.perm_insertionSort _ _).mem_iff, List.mem_filterMap] at he
      obtain ⟨obj, -, hlisted⟩ := he
      unfold listedCandidate at hlisted
      split at hlisted
      · split at hlisted
        · cases hlisted
          obtain ⟨_, _, _, _, _, _, hplanned⟩ := candidate_queue hq
          rw [hplanned.entry]
          rfl
        · cases hlisted
      · cases hlisted
  · exact .nil

-- The library only stands in the way: it never answers that a file is to be queued.
theorem placementState_found {disk : Disk} {objects : List HomeObject} {job : JobSpec}
    {found : SyncDisposition × Text} (h : placementState disk objects job = some found) :
    found.1 = .Blocked ∨ found.1 = .Present := by
  unfold placementState at h
  split at h
  · cases h
    exact .inl rfl
  split at h
  · cases h
    exact .inl rfl
  dsimp only at h
  split at h
  · cases h
    exact .inl rfl
  · cases h
    exact .inr rfl
  · exact .inl (destinationState_blocked h)

theorem evaluateEntry_queue {env : Env} {objects : List HomeObject} {entry : SyncEntry}
    (h : (evaluateEntry env objects entry).disposition = .WouldQueue) :
    evaluateEntry env objects entry = entry ∧ entry.disposition = .WouldQueue := by
  unfold evaluateEntry at h ⊢
  by_cases hopen : entry.disposition ≠ .WouldQueue
  · rw [if_pos hopen] at h
    exact absurd h hopen
  rw [if_neg hopen] at h ⊢
  push Not at hopen
  refine ⟨?_, hopen⟩
  split at h
  · cases h
  next job hjob =>
    split at h
    · next disposition reason hstate =>
        have hdisposition : disposition = .WouldQueue := h
        rcases placementState_found hstate with hfound | hfound <;> cases hdisposition.symm.trans hfound
    next hstate =>
      split at h
      · next existing hexisting =>
          split at h
          · split at h
            · cases h
            · cases h
          · rfl
      next hexisting =>
        split at h
        · cases h
        next hrefusal => rfl

-- What an entry says of its file; planning fixes it.
def frozen (entry : SyncEntry) : Text × Text × UInt64 × Text × Option Placement × Option JobSpec :=
  (entry.remoteRoot, entry.remotePath, entry.fileLen, entry.titleId, entry.placement, entry.job)

-- An evaluated entry is about the same file, and queues nothing by itself.
theorem evaluateEntry_kept (env : Env) (objects : List HomeObject) (entry : SyncEntry) :
    frozen (evaluateEntry env objects entry) = frozen entry ∧
      (entry.disposition ≠ .Queued → (evaluateEntry env objects entry).disposition ≠ .Queued) := by
  unfold evaluateEntry
  split
  · exact ⟨rfl, id⟩
  split
  · exact ⟨rfl, fun _ => SyncDisposition.noConfusion⟩
  split
  · next disposition reason hstate =>
      refine ⟨rfl, fun _ hqueued => ?_⟩
      have hdisposition : disposition = .Queued := hqueued
      rcases placementState_found hstate with hfound | hfound <;> cases hdisposition.symm.trans hfound
  split
  · split
    · split
      · exact ⟨rfl, fun _ => SyncDisposition.noConfusion⟩
      · exact ⟨rfl, fun _ => SyncDisposition.noConfusion⟩
    · exact ⟨rfl, id⟩
  split
  · exact ⟨rfl, fun _ => SyncDisposition.noConfusion⟩
  · exact ⟨rfl, id⟩

theorem candidate_unqueued (remote : RemoteFileStatus) (holds : List HomeObject)
    (cluster : ClusterSpec) (name : Text) :
    (candidate remote holds cluster name).disposition ≠ .Queued := by
  unfold candidate
  repeat' split
  all_goals exact SyncDisposition.noConfusion

theorem capture_unqueued {objects : List HomeObject} {request : HomeObject} {entry : SyncEntry}
    (h : entry ∈ capture objects request) : entry.disposition ≠ .Queued := by
  unfold capture at h
  split at h
  · next status _ =>
      split at h
      · cases h
      next cluster _ =>
        obtain ⟨e, he, rfl⟩ := List.mem_map.mp h
        rw [(List.perm_insertionSort _ _).mem_iff, List.mem_filterMap] at he
        obtain ⟨obj, -, hlisted⟩ := he
        have hcandidate : e.disposition ≠ .Queued := by
          unfold listedCandidate at hlisted
          split at hlisted
          · split at hlisted
            · cases hlisted
              exact candidate_unqueued _ _ _ _
            · cases hlisted
          · cases hlisted
        split
        · exact SyncDisposition.noConfusion
        · exact hcandidate
  · cases h

end

end Mediaops.SyncPlan
