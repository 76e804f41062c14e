import Mediaops.Api.Admission.Theorems
import Mediaops.Proto

namespace Mediaops.Proto

-- An object that is sent to the Home comes back as it was.

open Codec (Returns returns_list returns_option returns_absent)

section Words

theorem parseWord_asStr {α : Type} {what : String} {all : List α} {asStr : α → Text}
    (hspell : (all.map asStr).Nodup) {value : α} (hvalue : value ∈ all) :
    Returns asStr (parseWord what all asStr) value := by
  unfold Returns parseWord
  rw [Codec.word_spell hspell hvalue]
  rfl

-- A word that stands for a value, and the empty word for its default.
theorem parseOr_asStr {α : Type} {empty : α} {asStr : α → Text} {parse : Text → Except HomeError α}
    {value : α} (hparse : Returns asStr parse value) (hword : asStr value ≠ []) :
    Returns asStr (parseOr empty parse) value := by
  unfold Returns parseOr
  rw [if_neg hword]
  exact hparse

theorem parseWordOr_asStr {α : Type} {empty : α} {what : String} {all : List α} {asStr : α → Text}
    (hspell : (all.map asStr).Nodup) {value : α} (hvalue : value ∈ all) (hword : asStr value ≠ []) :
    Returns asStr (parseWordOr empty what all asStr) value :=
  parseOr_asStr (parseWord_asStr hspell hvalue) hword

theorem wantPhase_returns (phase : WantPhase) : Returns WantPhase.asStr WantPhase.parse phase :=
  parseWord_asStr (by decide) (by cases phase <;> decide)

theorem jobKind_returns (kind : HomeJobKind) : Returns HomeJobKind.asStr HomeJobKind.parse kind :=
  parseWord_asStr (by decide) (by cases kind; decide)

theorem jobPhase_returns (phase : JobPhase) : Returns JobPhase.asStr JobPhase.parse phase :=
  parseWord_asStr (by decide) (by cases phase <;> decide)

theorem decision_returns (decision : HoldDecisionSpec) :
    Returns HoldDecisionSpec.asStr HoldDecisionSpec.parse decision := by
  cases decision <;> rfl

theorem workerKind_returns (worker : WorkerKind) : Returns WorkerKind.asStr WorkerKind.parse worker :=
  parseWord_asStr (by decide) (by cases worker <;> decide)

theorem syncScope_returns (scope : SyncScope) : Returns SyncScope.asStr SyncScope.parse scope :=
  parseWordOr_asStr (by decide) (by cases scope; decide) (by cases scope; decide)

theorem syncPhase_returns (phase : SyncPhase) : Returns SyncPhase.asStr SyncPhase.parse phase :=
  parseWordOr_asStr (by decide) (by cases phase <;> decide) (by cases phase <;> decide)

theorem disposition_returns (disposition : SyncDisposition) :
    Returns SyncDisposition.asStr SyncDisposition.parse disposition :=
  parseWordOr_asStr (by decide) (by cases disposition <;> decide)
    (by cases disposition <;> decide)

theorem grabber_returns (grabber : Grabber) : Returns grabberWire parseGrabber grabber :=
  parseWordOr_asStr (by decide) (by cases grabber <;> decide) (by cases grabber <;> decide)

theorem titleKind_returns (kind : TitleKind) : Returns TitleKind.asStr parseTitleKind kind :=
  parseWord_asStr (by decide) (by cases kind <;> decide)

theorem kind_returns (kind : Kind) : Returns Kind.asStr Kind.parse kind := by
  cases kind <;> rfl

end Words

section Digests

theorem digest_returns (digest : Blake3Hex) : Returns Blake3Hex.text parseDigest digest := by
  unfold Returns parseDigest Blake3Hex.parse
  rw [dif_pos digest.valid]
  rfl

theorem digest_ne_nil (digest : Blake3Hex) : digest.text ≠ [] := by
  intro hnil
  have hvalid := digest.valid
  rw [hnil] at hvalid
  cases hvalid

theorem digestOpt_returns (digest : Option Blake3Hex) :
    Returns digestOptToWire parseDigestOpt digest :=
  returns_absent (fun digest _ => digest_returns digest) fun digest _ => digest_ne_nil digest

end Digests

section Placements

-- The widths of the source's own numbers: sixteen bits for years and episodes, eight
-- for seasons, discs and tracks.
def InRange : Placement → Prop
  | .Movie _ year _ => year < 65536
  | .Episode _ year season episode episodeEnd _ _ =>
      year < 65536 ∧ season < 256 ∧ episode < 65536 ∧ ∀ n ∈ episodeEnd, n < 65536
  | .Track _ _ year disc track _ _ =>
      year < 65536 ∧ (∀ n ∈ disc, n < 256) ∧ ∀ n ∈ track, n < 256

def Titled : Placement → Prop
  | .Episode _ _ _ _ _ episodeTitle _ => episodeTitle ≠ some []
  | _ => True

theorem fit_returns {bound n : Nat} (hn : n < bound) (hbound : bound ≤ 2 ^ 32) (field : String) :
    Returns UInt32.ofNat (fun word => fit bound word field) n := by
  have hword : (UInt32.ofNat n).toNat = n := by
    rw [UInt32.toNat_ofNat']
    exact Nat.mod_eq_of_lt (by omega)
  unfold Returns fit
  dsimp only
  rw [hword, if_pos hn]
  rfl

theorem fits_return {bound : Nat} {value : Option Nat} (h : ∀ n ∈ value, n < bound)
    (hbound : bound ≤ 2 ^ 32) (field : String) :
    Returns (Option.map UInt32.ofNat) (Option.mapM fun word => fit bound word field) value :=
  returns_option fun n hn => fit_returns (h n hn) hbound field

theorem placement_returns {placement : Placement} (hrange : InRange placement)
    (htitled : Titled placement) : Returns placementToWire placementFromWire placement := by
  have hyear : ∀ {n : Nat}, n < 65536 → fitU16 (UInt32.ofNat n) "year" = .ok n :=
    fun hn => fit_returns hn (by decide) "year"
  cases placement with
  | Movie title year extension =>
      simp only [Returns, placementToWire, placementFromWire, Option.getD_some, hyear hrange]
      rfl
  | Episode title year season episode episodeEnd episodeTitle extension =>
      obtain ⟨hyears, hseason, hepisode, hend⟩ := hrange
      have hseasons : fitU8 (UInt32.ofNat season) "season" = .ok season :=
        fit_returns hseason (by decide) "season"
      have hepisodes : fitU16 (UInt32.ofNat episode) "episode" = .ok episode :=
        fit_returns hepisode (by decide) "episode"
      have hends : (episodeEnd.map UInt32.ofNat).mapM (fun n => fitU16 n "episode_end") =
          .ok episodeEnd := fits_return hend (by decide) "episode_end"
      have hkept : episodeTitle.filter (· ≠ []) = episodeTitle := by
        cases episodeTitle with
        | none => rfl
        | some text =>
            have hne : text ≠ [] := fun hnil => htitled (congrArg some hnil)
            simp [Option.filter, hne]
      simp only [Returns, placementToWire, placementFromWire, Option.getD_some, hyear hyears,
        hseasons, hepisodes, hends, hkept]
      rfl
  | Track artist album year disc track title extension =>
      obtain ⟨hyears, hdisc, htrack⟩ := hrange
      have hdiscs : (disc.map UInt32.ofNat).mapM (fun n => fitU8 n "disc") = .ok disc :=
        fits_return hdisc (by decide) "disc"
      have htracks : (track.map UInt32.ofNat).mapM (fun n => fitU8 n "track") = .ok track :=
        fits_return htrack (by decide) "track"
      simp only [Returns, placementToWire, placementFromWire, Option.getD_some, hyear hyears,
        hdiscs, htracks]
      rfl

theorem optPlacement_returns {value : Option Placement}
    (h : ∀ placement ∈ value, InRange placement ∧ Titled placement) :
    Returns (Option.map placementToWire) optPlacement value := by
  refine returns_option fun placement hplacement => ?_
  obtain ⟨hrange, htitled⟩ := h placement hplacement
  have hreturns : placementFromWire (placementToWire placement) = .ok placement :=
    placement_returns hrange htitled
  unfold Returns
  dsimp only
  rw [hreturns]
  rfl

end Placements

section Specs

theorem pathRoot_returns (root : PathRoot) : Returns pathRootToWire pathRootFromWire root := by
  have hkind : Codec.readOr [] parseTitleKind (Codec.sendOr [] TitleKind.asStr root.kind) =
      .ok root.kind :=
    returns_absent (fun kind _ => titleKind_returns kind) fun kind _ => by cases kind <;> decide
  simp only [Returns, pathRootToWire, pathRootFromWire, hkind]
  rfl

-- Zero stands for no concurrency, so a concurrency of zero would be lost.
theorem clusterSpec_returns {spec : ClusterSpec} (h : spec.rangeConcurrency ≠ some 0) :
    Returns clusterSpecToWire clusterSpecFromWire spec := by
  have hgrabber : parseGrabber (grabberWire spec.grabber) = .ok spec.grabber :=
    grabber_returns spec.grabber
  have hroots : (spec.roots.map pathRootToWire).mapM pathRootFromWire = .ok spec.roots :=
    returns_list fun root _ => pathRoot_returns root
  have hconcurrency : (if spec.rangeConcurrency.getD 0 = 0 then none
      else some (spec.rangeConcurrency.getD 0)) = spec.rangeConcurrency := by
    cases hspec : spec.rangeConcurrency with
    | none => rfl
    | some n =>
        rw [hspec] at h
        have hn : n ≠ 0 := fun hzero => h (congrArg some hzero)
        simp [hn]
  simp only [Returns, clusterSpecToWire, clusterSpecFromWire, hgrabber, hroots]
  show Except.ok ({ spec with
    rangeConcurrency := if spec.rangeConcurrency.getD 0 = 0 then none
      else some (spec.rangeConcurrency.getD 0) } : ClusterSpec) = .ok spec
  rw [hconcurrency]

theorem titleFile_returns (file : TitleFileStatus) :
    Returns titleFileToWire titleFileFromWire file := by
  have hinstall : parseDigest file.installB3.text = .ok file.installB3 := digest_returns _
  have hcurrent : parseDigest file.currentB3.text = .ok file.currentB3 := digest_returns _
  simp only [Returns, titleFileToWire, titleFileFromWire, hinstall, hcurrent]
  rfl

theorem jobSpec_returns (spec : JobSpec) : Returns jobSpecToWire jobSpecFromWire spec := by
  have hkind : parseOr .Pull HomeJobKind.parse spec.kind.asStr = .ok spec.kind :=
    parseOr_asStr (jobKind_returns spec.kind) (by cases spec.kind; decide)
  simp only [Returns, jobSpecToWire, jobSpecFromWire, hkind]
  rfl

theorem syncEntry_returns {entry : SyncEntry}
    (h : ∀ placement ∈ entry.placement, InRange placement ∧ Titled placement) :
    Returns syncEntryToWire syncEntryFromWire entry := by
  have hplacement : optPlacement (entry.placement.map placementToWire) = .ok entry.placement :=
    optPlacement_returns h
  have hjob : (entry.job.map jobSpecToWire).mapM jobSpecFromWire = .ok entry.job :=
    returns_option fun spec _ => jobSpec_returns spec
  have hdisposition : parseOr .WouldQueue SyncDisposition.parse entry.disposition.asStr =
      .ok entry.disposition :=
    parseOr_asStr (disposition_returns entry.disposition) (by cases entry.disposition <;> decide)
  simp only [Returns, syncEntryToWire, syncEntryFromWire, hplacement, hjob, hdisposition]
  rfl

theorem syncStatus_returns {status : SyncStatus}
    (hplacements : ∀ entry ∈ status.entries, ∀ placement ∈ entry.placement,
      InRange placement ∧ Titled placement)
    (hcluster : ∀ spec ∈ status.cluster, spec.rangeConcurrency ≠ some 0) :
    Returns syncStatusToWire syncStatusFromWire status := by
  have hphase : parseOr .WaitingInventory SyncPhase.parse status.phase.asStr = .ok status.phase :=
    parseOr_asStr (syncPhase_returns status.phase) (by cases status.phase <;> decide)
  have hsnapshot : (status.cluster.map clusterSpecToWire).mapM clusterSpecFromWire =
      .ok status.cluster := returns_option fun spec hspec => clusterSpec_returns (hcluster spec hspec)
  have hentries : (status.entries.map syncEntryToWire).mapM syncEntryFromWire =
      .ok status.entries :=
    returns_list fun entry hentry => syncEntry_returns (hplacements entry hentry)
  simp only [Returns, syncStatusToWire, syncStatusFromWire, hphase, hsnapshot, hentries]
  rfl

end Specs

section Objects

-- The placements that an object carries, and the concurrency of its cluster snapshot.
def placementsOf : StatusBody → List Placement
  | .Hold status => status.placement.toList
  | .Sync status => status.entries.filterMap SyncEntry.placement
  | _ => []

def snapshotConcurrency : StatusBody → Option UInt32
  | .Sync status => status.cluster.bind ClusterSpec.rangeConcurrency
  | _ => none

variable [UnicodeTables]

-- What validation has checked that the conversion relies on.
theorem validate_title {name : Text} {spec : TitleSpec}
    (h : validateSpec name (.Title spec) = .ok ()) : ∃ id, validateTitleId spec.titleId = .ok id := by
  obtain ⟨id, hid, -⟩ := Checks.bind_ok h
  exact ⟨id, hid⟩

theorem validate_want {name : Text} {spec : WantSpec}
    (h : validateSpec name (.Want spec) = .ok ()) :
    (∃ id, validateTitleId spec.titleId = .ok id) ∧ name = spec.titleId := by
  obtain ⟨id, hid, hname⟩ := Checks.bind_ok h
  exact ⟨⟨id, hid⟩, not_not.mp (Checks.ite_ok hname).1⟩

theorem validate_cluster {name : Text} {spec : ClusterSpec}
    (h : validateSpec name (.Cluster spec) = .ok ()) : spec.rangeConcurrency ≠ some 0 := by
  intro hzero
  unfold validateSpec validateCluster at h
  obtain ⟨-, hchecks⟩ := Checks.guard_ok h
  obtain ⟨hrange, -⟩ := Checks.seq_ok hchecks
  rw [hzero, Option.getD_some] at hrange
  exact (Checks.ite_ok hrange).1 (.inr (.inr (.inl rfl)))

omit [UnicodeTables] in
theorem requireKind_self (kind : Kind) : requireKind kind kind = .ok () := by
  rw [requireKind, if_pos rfl]
  rfl

theorem body_returns {name : Text} {kind : Kind} {spec : Spec} {status : StatusBody}
    (hname : name ≠ []) (hspec : spec.kind = kind) (hstatus : status.kind = kind)
    (hvalid : validateSpec name spec = .ok ())
    (hplacements : ∀ placement ∈ placementsOf status, InRange placement ∧ Titled placement)
    (hsnapshot : snapshotConcurrency status ≠ some 0) :
    bodyFromWire kind (bodyToWire spec status) = .ok (spec, status) := by
  subst hspec
  have hkind := requireKind_self spec.kind
  cases spec with
  | Cluster spec =>
      cases status <;> cases hstatus
      have hreturns : clusterSpecFromWire (clusterSpecToWire spec) = .ok spec :=
        clusterSpec_returns (validate_cluster hvalid)
      simp only [bodyToWire, bodyFromWire, Spec.kind, Option.getD_some, hreturns, requireKind_self]
      rfl
  | Secret spec =>
      cases status <;> cases hstatus
      rfl
  | Title spec =>
      cases status with
      | Title status =>
          obtain ⟨id, hid⟩ := validate_title hvalid
          have hfiles : (status.files.map titleFileToWire).mapM titleFileFromWire =
              .ok status.files := returns_list fun file _ => titleFile_returns file
          have hinstall : parseDigestOpt (digestOptToWire status.installB3) = .ok status.installB3 :=
            digestOpt_returns _
          have hcurrent : parseDigestOpt (digestOptToWire status.currentB3) = .ok status.currentB3 :=
            digestOpt_returns _
          simp only [bodyToWire, bodyFromWire, Spec.kind, Option.getD_some, requireKind_self, hid,
            hfiles, hinstall, hcurrent]
          by_cases hnil : spec.titleId = []
          · rw [if_neg (not_not.mpr hnil)]
            rfl
          · rw [if_pos hnil]
            rfl
      | _ => cases hstatus
  | Want spec =>
      cases status with
      | Want status =>
          obtain ⟨⟨id, hid⟩, hsame⟩ := validate_want hvalid
          have hphase : parseOr .Open WantPhase.parse status.phase.asStr = .ok status.phase :=
            parseOr_asStr (wantPhase_returns status.phase) (by cases status.phase <;> decide)
          have hne : spec.titleId ≠ [] := hsame ▸ hname
          simp only [bodyToWire, bodyFromWire, Spec.kind, Option.getD_some, requireKind_self, hid,
            hphase]
          rw [if_neg hne]
          rfl
      | _ => cases hstatus
  | Job spec =>
      cases status with
      | Job status =>
          have hreturns : jobSpecFromWire (jobSpecToWire spec) = .ok spec := jobSpec_returns spec
          have hverified : parseDigestOpt (digestOptToWire status.verifiedB3) =
              .ok status.verifiedB3 := digestOpt_returns _
          have hphase : parseOr .Pending JobPhase.parse status.phase.asStr = .ok status.phase :=
            parseOr_asStr (jobPhase_returns status.phase) (by cases status.phase <;> decide)
          simp only [bodyToWire, bodyFromWire, Spec.kind, Option.getD_some, requireKind_self,
            hreturns, hverified, hphase]
          rfl
      | _ => cases hstatus
  | Hold spec =>
      cases status with
      | Hold status =>
          have hdecision : HoldDecisionSpec.parse spec.decision.asStr = .ok spec.decision :=
            decision_returns _
          have hplacement : optPlacement (status.placement.map placementToWire) =
              .ok status.placement :=
            optPlacement_returns fun placement hmem =>
              hplacements placement (Option.mem_toList.mpr hmem)
          simp only [bodyToWire, bodyFromWire, Spec.kind, Option.getD_some, requireKind_self,
            hdecision, hplacement]
          rfl
      | _ => cases hstatus
  | RemoteFile =>
      cases status <;> cases hstatus
      rfl
  | Node spec =>
      cases status with
      | Node status =>
          have hworker : WorkerKind.parse spec.workerKind.asStr = .ok spec.workerKind :=
            workerKind_returns _
          simp only [bodyToWire, bodyFromWire, Spec.kind, Option.getD_some, requireKind_self,
            hworker]
          rfl
      | _ => cases hstatus
  | Event =>
      cases status <;> cases hstatus
      rfl
  | Sync spec =>
      cases status with
      | Sync status =>
          have hscope : SyncScope.parse spec.scope.asStr = .ok spec.scope := syncScope_returns _
          have hreturns : syncStatusFromWire (syncStatusToWire status) = .ok status := by
            refine syncStatus_returns (fun entry hentry placement hmem => ?_) fun snapshot hmem => ?_
            · exact hplacements placement (List.mem_filterMap.mpr ⟨entry, hentry, hmem⟩)
            · rw [Option.mem_def] at hmem
              simpa [snapshotConcurrency, hmem] using hsnapshot
          simp only [bodyToWire, bodyFromWire, Spec.kind, Option.getD_some, requireKind_self,
            hscope, hreturns]
          rfl
      | _ => cases hstatus

-- What is sent of an object that validates is the object, for every kind.
theorem home_object_round_trip (obj : HomeObject) (hvalid : obj.validate = .ok ())
    (hrange : ∀ placement ∈ placementsOf obj.status, InRange placement)
    (htitled : ∀ placement ∈ placementsOf obj.status, Titled placement)
    (hsnapshot : snapshotConcurrency obj.status ≠ some 0) :
    homeObjectFromWire (homeObjectToWire obj) = .ok obj := by
  have hparts := HomeObject.validate_ok hvalid
  have hkind : Kind.parse obj.kind.asStr = .ok obj.kind := kind_returns _
  have hbody : bodyFromWire obj.kind (bodyToWire obj.spec obj.status) = .ok (obj.spec, obj.status) :=
    body_returns hparts.name hparts.agrees.1 hparts.agrees.2 hparts.spec
      (fun placement hmem => ⟨hrange placement hmem, htitled placement hmem⟩) hsnapshot
  have hversion : ¬(homeObjectToWire obj).apiVersion = [] := by
    show ¬obj.apiVersion = []
    rw [hparts.version]
    decide
  have hname : ¬((homeObjectToWire obj).metadata.getD {}).name = [] := hparts.name
  unfold homeObjectFromWire
  rw [show (homeObjectToWire obj).kind = obj.kind.asStr from rfl, hkind,
    show (homeObjectToWire obj).body = bodyToWire obj.spec obj.status from rfl]
  simp only [bind, Except.bind, hbody]
  rw [if_neg hversion, if_neg hname]
  rfl

-- A request before it is captured.
example :
    let := UnicodeTables.ascii
    let request : HomeObject := .new .Sync "evening".toList (.Sync {}) (StatusBody.empty .Sync)
    homeObjectFromWire (homeObjectToWire request) = .ok request := by decide +kernel

end Objects

section Sample

def sampleEpisode : Placement :=
  .Episode "Show".toList 2020 1 2 (some 3) none "mkv".toList

-- A captured Sync with a queued file and the cluster it was planned for.
def sampleSync : HomeObject :=
  .new .Sync "request-1".toList (.Sync {}) (.Sync
    { phase := .Captured
      cluster := some
        { rangeConcurrency := some 4
          grabber := .Servarr
          roots := [{ id := "seedbox".toList, path := "/data".toList, kind := some .Series }] }
      entries :=
        [{ remoteRoot := "seedbox".toList
           placement := some sampleEpisode
           job := some { titleId := "series:tvdb:1".toList }
           disposition := .Queued }] })

theorem sample_placements : placementsOf sampleSync.status = [sampleEpisode] := rfl

theorem home_object_round_trip_sync :
    let := UnicodeTables.ascii
    homeObjectFromWire (homeObjectToWire sampleSync) = .ok sampleSync := by
  refine @home_object_round_trip UnicodeTables.ascii sampleSync (by decide +kernel) ?_ ?_ (by decide)
  · simp [sample_placements, InRange, sampleEpisode]
  · simp [sample_placements, Titled, sampleEpisode]

end Sample

end Mediaops.Proto
