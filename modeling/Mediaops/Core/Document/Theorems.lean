import Mathlib.Algebra.Group.Int.Defs
import Mediaops.Core.Document
import Mediaops.Proto.Theorems

namespace Mediaops.Document

-- An object's document is read as the object, and what becomes of it when its keys
-- are renamed as those of a TOML document are.

open Serde
open Proto (InRange placementsOf)

-- The 64-bit counters and clock readings of an object.
def statusCounters : StatusBody → List Int
  | .Cluster s => [s.acceptedGeneration, s.reconcileGeneration]
  | .Job s => [s.startedUnix]
  | .Hold s => [s.listGeneration, s.addedUnix]
  | .RemoteFile s => [s.listGeneration]
  | .Node s =>
      [s.listGeneration, s.listCompletedUnix, s.lastHeartbeatUnix, s.scanStartedRv,
        s.scanClusterGeneration, s.scanSecretResourceVersion]
  | .Event s => [s.ts]
  | .Sync s =>
      [s.acceptedUnix, s.deadlineUnix, s.baselineGeneration, s.acceptanceRv, s.listGeneration,
        s.clusterGeneration, s.secretResourceVersion]
  | .Secret | .Title _ | .Want _ => []

def counters (obj : HomeObject) : List Int :=
  [obj.metadata.generation, obj.metadata.resourceVersion] ++ statusCounters obj.status

-- The width of the source's signed numbers.
def Wide (n : Int) : Prop := -2 ^ 63 ≤ n ∧ n < 2 ^ 63

-- No name of the placement has an underscore.
def Plain : Placement → Prop
  | .Episode _ _ _ _ episodeEnd episodeTitle _ => episodeEnd = none ∧ episodeTitle = none
  | _ => True

-- The two formats read an object's document as the same.
def FormatsAgree [UppercaseTable] (specText statusText : Kind → Json → Text) (obj : HomeObject) :
    Prop :=
  fromDocument specText statusText (snakeKeysToCamel (document obj)) =
    fromDocument specText statusText (document obj)

section Names

def structNames : List (List Text) :=
  [pathRootNames, clusterSpecNames, clusterStatusNames, secretSpecNames, titleSpecNames,
    titleFileNames, titleStatusNames, wantSpecNames, wantStatusNames, jobSpecNames, jobStatusNames,
    holdSpecNames, holdStatusNames, remoteFileNames, nodeSpecNames, nodeStatusNames, eventNames,
    syncSpecNames, syncEntryNames, syncStatusNames, metadataNames, objectNames, tag :: movieNames,
    tag :: trackNames]

theorem structNames_distinct : ∀ ns ∈ structNames, ns.Nodup := by decide +kernel

theorem structNames_free : ∀ ns ∈ structNames, ∀ name ∈ ns, '_' ∉ name := by decide +kernel

theorem episodeNames_distinct : (tag :: episodeNames).Nodup := by decide +kernel

variable [UppercaseTable]

theorem toCamel_of_free {name : Text} (h : '_' ∉ name) : toCamel name = name := by
  unfold toCamel
  induction name with
  | nil => rfl
  | cons c rest ih =>
      simp only [List.mem_cons, not_or] at h
      rw [toCamelFrom, if_neg (Ne.symm h.1), ih h.2]
      rfl

theorem toCamel_struct {ns : List Text} (h : ns ∈ structNames) : ∀ name ∈ ns, toCamel name = name :=
  fun name hname => toCamel_of_free (structNames_free ns h name hname)

def camelEpisodeNames : List Text :=
  names ["title", "year", "season", "episode", "episodeEnd", "episodeTitle", "extension"]

theorem toCamel_episode : (tag :: episodeNames).map toCamel = tag :: camelEpisodeNames := by
  have hend : toCamel "episode_end".toList = "episodeEnd".toList := by
    simp [toCamel, toCamelFrom, UppercaseTable.toUppercase_ascii 'e' (by decide)]
  have htitle : toCamel "episode_title".toList = "episodeTitle".toList := by
    simp [toCamel, toCamelFrom, UppercaseTable.toUppercase_ascii 't' (by decide)]
  simp only [episodeNames, camelEpisodeNames, names, tag, List.map_cons, List.map_nil, hend, htitle]
  simp (disch := decide) only [toCamel_of_free]

omit [UppercaseTable] in
theorem camelEpisodeNames_distinct : (tag :: camelEpisodeNames).Nodup := by decide +kernel

end Names

-- What leaves flat values alone and goes through lists and through the structs whose
-- names have no underscore.
class KeepsStructs (t : Json → Json) : Prop where
  flat : ∀ value, isFlat value = true → t value = value
  list : ∀ items, t (.Array items) = .Array (items.map t)
  struct : ∀ ns ∈ structNames, ∀ values, t (record ns values) = record ns (values.map (Option.map t))

instance : KeepsStructs id where
  flat _ _ := rfl
  list items := by rw [List.map_id]; rfl
  struct ns _ values := by
    rw [Option.map_id, List.map_id]
    rfl

instance [UppercaseTable] : KeepsStructs snakeKeysToCamel where
  flat _ := renameKeys_flat
  list items := by
    rw [snakeKeysToCamel, renameKeys, renameItems_eq]
    rfl
  struct ns hns values := renameKeys_record_fixed (structNames_distinct ns hns) (toCamel_struct hns) values

section Values

variable {α : Type} {t : Json → Json} [KeepsStructs t]

-- A member of the document, as it is read behind `t`.
def sent (t : Json → Json) (field : Option Json) : Option Json := (dropNull field).map t

omit [KeepsStructs t] in
@[simp] theorem sent_none : sent t none = none := rfl

theorem sent_flat {value : Json} (hdrop : dropNull (some value) = some value)
    (hflat : isFlat value = true) : sent t (some value) = some value := by
  rw [sent, hdrop, Option.map_some, KeepsStructs.flat (t := t) value hflat]

@[simp] theorem sent_text (text : Text) : sent t (some (ofText text)) = some (ofText text) :=
  sent_flat rfl rfl

@[simp] theorem sent_bool (b : Bool) : sent t (some (.Bool b)) = some (.Bool b) := sent_flat rfl rfl

@[simp] theorem sent_u64 (n : UInt64) : sent t (some (ofU64 n)) = some (ofU64 n) := sent_flat rfl rfl

@[simp] theorem sent_u32 (n : UInt32) : sent t (some (ofU32 n)) = some (ofU32 n) := sent_flat rfl rfl

@[simp] theorem sent_nat (n : Nat) : sent t (some (ofNat n)) = some (ofNat n) := sent_flat rfl rfl

@[simp] theorem sent_i64 (n : Int) : sent t (some (ofI64 n)) = some (ofI64 n) := by
  refine sent_flat (dropNull_i64 n) ?_
  unfold ofI64
  split <;> rfl

@[simp] theorem sent_digest (digest : Blake3Hex) :
    sent t (some (ofDigest digest)) = some (ofDigest digest) := sent_flat rfl rfl

omit [KeepsStructs t] in
theorem sent_map {write : α → Json} (h : ∀ a, sent t (some (write a)) = some (write a))
    (field : Option α) : sent t (field.map write) = field.map write := by
  cases field with
  | none => rfl
  | some a => exact h a

@[simp] theorem sent_list (write : α → Json) (items : List α) :
    sent t (some (ofList write items)) = some (ofList (fun item => t (withoutNulls (write item))) items) := by
  rw [sent, dropNull_list, Option.map_some, ofList, KeepsStructs.list (t := t), ofList, List.map_map]
  rfl

@[simp] theorem readText_text (text : Text) : readText (ofText text) = some text := rfl

theorem readDigest_digest (digest : Blake3Hex) : readDigest (ofDigest digest) = some digest := by
  have hparse : Blake3Hex.parse digest.text = .ok digest := by
    unfold Blake3Hex.parse
    rw [dif_pos digest.valid]
    rfl
  simp [readDigest, ofDigest, hparse, Except.toOption]

omit [KeepsStructs t] in
-- A member that is skipped when it has the value that stands for a missing one.
theorem defaulted_skipped {missing : α} {read : Json → Option α} {write : α → Json} {a : α}
    {skip : Bool} (hskip : skip = true → a = missing)
    (hsent : sent t (some (write a)) = some (write a)) (h : read (write a) = some a) :
    defaulted missing read (sent t (unlessSkipped skip (write a))) = some a := by
  cases skip with
  | true =>
      rw [hskip rfl]
      rfl
  | false =>
      rw [unlessSkipped, if_neg Bool.false_ne_true, hsent]
      exact h

@[simp] theorem read_filled (text : Text) : defaulted [] readText (sent t (filled text)) = some text := by
  have hread : readText (ofText text) = some text := rfl
  exact defaulted_skipped (by simp) (sent_text text) hread

theorem read_nonzero {n : Int} (h : Wide n) : defaulted 0 readI64 (sent t (nonzero n)) = some n := by
  have hread : readI64 (ofI64 n) = some n := readI64_i64 h.2
  exact defaulted_skipped (by simp) (sent_i64 n) hread

@[simp] theorem read_digests (field : Option Blake3Hex) :
    optional readDigest (sent t (field.map ofDigest)) = some field := by
  rw [sent_map sent_digest]
  exact optional_map rfl fun digest _ => readDigest_digest digest

theorem read_below {bound : Nat} {field : Option Nat} (h : ∀ n ∈ field, n < bound)
    (hbound : bound ≤ 2 ^ 64) : optional (readBelow bound) (sent t (field.map ofNat)) = some field := by
  rw [sent_map sent_nat]
  exact optional_map rfl fun n hn => readBelow_nat (h n hn) hbound

-- A list that is skipped when it is empty.
theorem read_list {read : Json → Option α} {write : α → Json} {g : α → α} {items : List α}
    (h : ∀ item ∈ items, read (t (withoutNulls (write item))) = some (g item)) :
    defaulted [] (readList read) (sent t (unlessSkipped items.isEmpty (ofList write items))) =
      some (items.map g) := by
  cases items with
  | nil => rfl
  | cons item rest =>
      rw [unlessSkipped, if_neg (by simp), sent_list]
      exact readList_map h

theorem struct_sent {ns : List Text} (hns : ns ∈ structNames) (values : List (Option Json)) :
    t (withoutNulls (record ns values)) = record ns (values.map (sent t)) := by
  rw [withoutNulls_record (structNames_distinct ns hns), KeepsStructs.struct (t := t) ns hns,
    List.map_map]
  rfl

-- A struct of the document is read by its names.
theorem fields_sent {ns : List Text} (hns : ns ∈ structNames) {values : List (Option Json)}
    (hlength : ns.length = values.length) :
    fields ns (t (withoutNulls (record ns values))) = some (values.map (sent t)) := by
  rw [struct_sent (t := t) hns, fields_record (structNames_distinct ns hns) (by simpa using hlength)]

end Values

section Structs

variable {t : Json → Json} [KeepsStructs t]

theorem readKind_kind (kind : TitleKind) : readKind (ofText kind.asStr) = some kind :=
  readVariant_string (by decide) (by cases kind <;> decide)

theorem pathRoot_returns (root : PathRoot) :
    pathRootFromJson (t (withoutNulls (pathRootToJson root))) = some root := by
  obtain ⟨id, path, kind⟩ := root
  have hkind : optional readKind (sent t (some ((kind.map fun kind => ofText kind.asStr).getD
      .Null))) = some kind := by
    cases kind with
    | none => rfl
    | some kind =>
        rw [Option.map_some, Option.getD_some, sent_text]
        exact optional_some rfl (readKind_kind kind)
  rw [pathRootToJson, pathRootFromJson, fields_sent (by simp [structNames]) rfl]
  simp [hkind]

theorem readGrabber_name (grabber : Grabber) : readGrabber (ofText (grabberName grabber)) = some grabber :=
  readVariant_string (by decide) (by cases grabber <;> decide)

theorem clusterSpec_returns (s : ClusterSpec) :
    clusterSpecFromJson (t (withoutNulls (clusterSpecToJson s))) = some s := by
  have hconcurrency : optional readU32 (sent t (s.rangeConcurrency.map ofU32)) =
      some s.rangeConcurrency := by
    rw [sent_map sent_u32]
    exact optional_map rfl fun n _ => readU32_u32 n
  have hroots : readList pathRootFromJson (ofList (fun root => t (withoutNulls (pathRootToJson root)))
      s.roots) = some s.roots := by
    simpa using readList_map (g := id) fun root (_ : root ∈ s.roots) => pathRoot_returns root
  rw [clusterSpecToJson, clusterSpecFromJson, fields_sent (by simp [structNames]) rfl]
  simp [hconcurrency, hroots, readGrabber_name]

theorem clusterStatus_returns (s : ClusterStatus) (h : ∀ n ∈ statusCounters (.Cluster s), Wide n) :
    clusterStatusFromJson (t (withoutNulls (clusterStatusToJson s))) = some s := by
  simp only [statusCounters, List.forall_mem_cons] at h
  rw [clusterStatusToJson, clusterStatusFromJson, fields_sent (by simp [structNames]) rfl]
  simp [readI64_i64 h.1.2, readI64_i64 h.2.1.2]

theorem secretSpec_returns (s : SecretSpec) :
    secretSpecFromJson (t (withoutNulls (secretSpecToJson s))) = some s := by
  rw [secretSpecToJson, secretSpecFromJson, fields_sent (by simp [structNames]) rfl]
  simp

theorem titleSpec_returns (s : TitleSpec) :
    titleSpecFromJson (t (withoutNulls (titleSpecToJson s))) = some s := by
  rw [titleSpecToJson, titleSpecFromJson, fields_sent (by simp [structNames]) rfl]
  simp

theorem titleFile_returns (s : TitleFileStatus) :
    titleFileFromJson (t (withoutNulls (titleFileToJson s))) = some s := by
  rw [titleFileToJson, titleFileFromJson, fields_sent (by simp [structNames]) rfl]
  simp [readDigest_digest]

theorem titleStatus_returns (s : TitleStatus) :
    titleStatusFromJson (t (withoutNulls (titleStatusToJson s))) = some s := by
  have hfiles : defaulted [] (readList titleFileFromJson) (sent t (unlessSkipped s.files.isEmpty
      (ofList titleFileToJson s.files))) = some s.files := by
    simpa using read_list (g := id) fun file (_ : file ∈ s.files) => titleFile_returns file
  rw [titleStatusToJson, titleStatusFromJson, fields_sent (by simp [structNames]) rfl]
  simp [hfiles, read_digests]

theorem wantSpec_returns (s : WantSpec) :
    wantSpecFromJson (t (withoutNulls (wantSpecToJson s))) = some s := by
  rw [wantSpecToJson, wantSpecFromJson, fields_sent (by simp [structNames]) rfl]
  simp

theorem wantStatus_returns (s : WantStatus) :
    wantStatusFromJson (t (withoutNulls (wantStatusToJson s))) = some s := by
  have hphase : readWantPhase (ofText s.phase.asStr) = some s.phase :=
    readVariant_string (by decide) (by cases s.phase <;> decide)
  rw [wantStatusToJson, wantStatusFromJson, fields_sent (by simp [structNames]) rfl]
  simp [hphase]

theorem jobSpec_returns (s : JobSpec) : jobSpecFromJson (t (withoutNulls (jobSpecToJson s))) = some s := by
  have hkind : readJobKind (ofText s.kind.asStr) = some s.kind :=
    readVariant_string (by decide) (by cases s.kind; decide)
  rw [jobSpecToJson, jobSpecFromJson, fields_sent (by simp [structNames]) rfl]
  simp [hkind, read_filled]

theorem jobStatus_returns (s : JobStatus) (h : ∀ n ∈ statusCounters (.Job s), Wide n) :
    jobStatusFromJson (t (withoutNulls (jobStatusToJson s))) = some s := by
  have hphase : readJobPhase (ofText s.phase.asStr) = some s.phase :=
    readVariant_string (by decide) (by cases s.phase <;> decide)
  simp only [statusCounters, List.forall_mem_cons] at h
  rw [jobStatusToJson, jobStatusFromJson, fields_sent (by simp [structNames]) rfl]
  simp [hphase, read_digests, readI64_i64 h.1.2]

theorem holdSpec_returns (s : HoldSpec) :
    holdSpecFromJson (t (withoutNulls (holdSpecToJson s))) = some s := by
  have hdecision : readDecision (ofText (decisionName s.decision)) = some s.decision :=
    readVariant_string (by decide) (by cases s.decision <;> decide)
  rw [holdSpecToJson, holdSpecFromJson, fields_sent (by simp [structNames]) rfl]
  simp [hdecision]

theorem remoteFile_returns (s : RemoteFileStatus) (h : ∀ n ∈ statusCounters (.RemoteFile s), Wide n) :
    remoteFileFromJson (t (withoutNulls (remoteFileToJson s))) = some s := by
  simp only [statusCounters, List.forall_mem_cons] at h
  rw [remoteFileToJson, remoteFileFromJson, fields_sent (by simp [structNames]) rfl]
  simp [readI64_i64 h.1.2]

theorem nodeSpec_returns (s : NodeSpec) :
    nodeSpecFromJson (t (withoutNulls (nodeSpecToJson s))) = some s := by
  have hworker : readWorker (ofText s.workerKind.asStr) = some s.workerKind :=
    readVariant_string (by decide) (by cases s.workerKind <;> decide)
  rw [nodeSpecToJson, nodeSpecFromJson, fields_sent (by simp [structNames]) rfl]
  simp [hworker]

theorem nodeStatus_returns (s : NodeStatus) (h : ∀ n ∈ statusCounters (.Node s), Wide n) :
    nodeStatusFromJson (t (withoutNulls (nodeStatusToJson s))) = some s := by
  simp only [statusCounters, List.forall_mem_cons] at h
  obtain ⟨hlist, hcompleted, hheartbeat, hstarted, hcluster, hsecret, -⟩ := h
  rw [nodeStatusToJson, nodeStatusFromJson, fields_sent (by simp [structNames]) rfl]
  simp [readI64_i64 hlist.2, readI64_i64 hcompleted.2, readI64_i64 hheartbeat.2,
    read_nonzero hstarted, read_nonzero hcluster, read_nonzero hsecret]

theorem event_returns (s : EventStatus) (h : ∀ n ∈ statusCounters (.Event s), Wide n) :
    eventFromJson (t (withoutNulls (eventToJson s))) = some s := by
  simp only [statusCounters, List.forall_mem_cons] at h
  rw [eventToJson, eventFromJson, fields_sent (by simp [structNames]) rfl]
  simp [readI64_i64 h.1.2]

theorem syncSpec_returns (s : SyncSpec) :
    syncSpecFromJson (t (withoutNulls (syncSpecToJson s))) = some s := by
  have hscope : readScope (ofText s.scope.asStr) = some s.scope :=
    readVariant_string (by decide) (by cases s.scope; decide)
  rw [syncSpecToJson, syncSpecFromJson, fields_sent (by simp [structNames]) rfl]
  simp [hscope]

end Structs

section Placements

-- What is left of a placement when its own names are renamed.
def plain : Placement → Placement
  | .Episode title year season episode _ _ extension =>
      .Episode title year season episode none none extension
  | placement => placement

theorem plain_eq {placement : Placement} : plain placement = placement ↔ Plain placement := by
  cases placement with
  | Episode title year season episode episodeEnd episodeTitle extension =>
      simp [plain, Plain, eq_comm]
  | _ => simp [plain, Plain]

-- The members of an episode behind its tag.
def episodeValues (title : Text) (year season episode : Nat) (episodeEnd : Option Nat)
    (episodeTitle : Option Text) (extension : Text) : List (Option Json) :=
  [some (ofText title), some (ofNat year), some (ofNat season), some (ofNat episode),
    episodeEnd.map ofNat, episodeTitle.map ofText, some (ofText extension)]

theorem withoutNulls_episode (title : Text) (year season episode : Nat) (episodeEnd : Option Nat)
    (episodeTitle : Option Text) (extension : Text) :
    withoutNulls (placementToJson (.Episode title year season episode episodeEnd episodeTitle
      extension)) = record (tag :: episodeNames) (some (ofText "episode") ::
        episodeValues title year season episode episodeEnd episodeTitle extension) := by
  rw [placementToJson, withoutNulls_record episodeNames_distinct]
  cases episodeEnd <;> cases episodeTitle <;> rfl

theorem read_year {year : Nat} (h : year < 65536) : readBelow 65536 (ofNat year) = some year :=
  readBelow_nat h (by decide)

theorem episode_read {title extension : Text} {year season episode : Nat} {episodeEnd : Option Nat}
    {episodeTitle : Option Text} (hyear : year < 65536) (hseason : season < 256)
    (hepisode : episode < 65536) {last name : Option Json}
    (hlast : optional (readBelow 65536) last = some episodeEnd)
    (hname : optional readText name = some episodeTitle) {value : Json}
    (hfields : taggedFields tag episodeNames value = some [some (ofText title), some (ofNat year),
      some (ofNat season), some (ofNat episode), last, name, some (ofText extension)]) :
    episodeFromJson value =
      some (.Episode title year season episode episodeEnd episodeTitle extension) := by
  rw [episodeFromJson, hfields]
  simp [read_year hyear, read_year hepisode, readBelow_nat hseason (by decide), hlast, hname]

theorem movie_distinct : (tag :: movieNames).Nodup := structNames_distinct _ (by simp [structNames])

theorem track_distinct : (tag :: trackNames).Nodup := structNames_distinct _ (by simp [structNames])

-- A written variant is read by its tag.
theorem placementFromJson_tagged {ns : List Text} (hdistinct : (tag :: ns).Nodup) (kind : Text)
    (values : List (Option Json)) :
    let value := record (tag :: ns) (some (ofText kind) :: values)
    placementFromJson value =
      if kind = "movie".toList then movieFromJson value
      else if kind = "episode".toList then episodeFromJson value
      else if kind = "track".toList then trackFromJson value
      else none := by
  intro value
  have htag : tagOf tag value = some kind := tagOf_record hdistinct kind values
  rw [placementFromJson, htag]
  rfl

-- Movies and tracks are read alike behind any `t`.
theorem movie_reads {t : Json → Json} [KeepsStructs t] {title extension : Text} {year : Nat}
    (h : InRange (.Movie title year extension)) :
    placementFromJson (t (withoutNulls (placementToJson (.Movie title year extension)))) =
      some (.Movie title year extension) := by
  have hyear : year < 65536 := h
  rw [placementToJson, struct_sent (t := t) (by simp [structNames])]
  simp only [List.map_cons, List.map_nil, sent_text, sent_nat]
  rw [placementFromJson_tagged movie_distinct, if_pos rfl, movieFromJson,
    taggedFields_record movie_distinct rfl]
  simp [read_year hyear]

theorem track_reads {t : Json → Json} [KeepsStructs t] {artist album title extension : Text}
    {year : Nat} {disc track : Option Nat}
    (h : InRange (.Track artist album year disc track title extension)) :
    placementFromJson (t (withoutNulls (placementToJson (.Track artist album year disc track title
      extension)))) = some (.Track artist album year disc track title extension) := by
  obtain ⟨hyear, hdisc, htrack⟩ := h
  have hdiscs := read_below (t := t) hdisc (by decide)
  have htracks := read_below (t := t) htrack (by decide)
  rw [placementToJson, struct_sent (t := t) (by simp [structNames])]
  simp only [List.map_cons, List.map_nil, sent_text, sent_nat]
  rw [placementFromJson_tagged track_distinct, if_neg (by decide), if_neg (by decide), if_pos rfl,
    trackFromJson, taggedFields_record track_distinct rfl]
  simp [read_year hyear, hdiscs, htracks]

theorem placement_reads {placement : Placement} (h : InRange placement) :
    placementFromJson (withoutNulls (placementToJson placement)) = some placement := by
  cases placement with
  | Movie title year extension => exact movie_reads (t := id) h
  | Episode title year season episode episodeEnd episodeTitle extension =>
      obtain ⟨hyear, hseason, hepisode, hend⟩ := h
      have hlast : optional (readBelow 65536) (episodeEnd.map ofNat) = some episodeEnd :=
        optional_map rfl fun n hn => readBelow_nat (hend n hn) (by decide)
      have hname : optional readText (episodeTitle.map ofText) = some episodeTitle :=
        optional_map rfl fun _ _ => rfl
      rw [withoutNulls_episode, placementFromJson_tagged episodeNames_distinct, if_neg (by decide),
        if_pos rfl]
      exact episode_read hyear hseason hepisode hlast hname
        (taggedFields_record episodeNames_distinct rfl _)
  | Track artist album year disc track title extension => exact track_reads (t := id) h

variable [UppercaseTable]

-- The renamed members of an episode are not found under the names that are read.
theorem placement_renamed {placement : Placement} (h : InRange placement) :
    placementFromJson (snakeKeysToCamel (withoutNulls (placementToJson placement))) =
      some (plain placement) := by
  cases placement with
  | Movie title year extension => exact movie_reads (t := snakeKeysToCamel) h
  | Episode title year season episode episodeEnd episodeTitle extension =>
      obtain ⟨hyear, hseason, hepisode, -⟩ := h
      have hflat : ∀ field ∈ episodeValues title year season episode episodeEnd episodeTitle extension,
          field.map (renameKeys toCamel) = field := by
        intro field hfield
        simp only [episodeValues, List.mem_cons, List.not_mem_nil, or_false] at hfield
        rcases hfield with rfl | rfl | rfl | rfl | rfl | rfl | rfl
        · rfl
        · rfl
        · rfl
        · rfl
        · cases episodeEnd <;> rfl
        · cases episodeTitle <;> rfl
        · rfl
      have hrenamed : ((tag :: episodeNames).map toCamel).Nodup := by
        rw [toCamel_episode]
        exact camelEpisodeNames_distinct
      have hdocument : snakeKeysToCamel (withoutNulls (placementToJson (.Episode title year season
          episode episodeEnd episodeTitle extension))) =
          record (tag :: camelEpisodeNames) (some (ofText "episode") ::
            episodeValues title year season episode episodeEnd episodeTitle extension) := by
        rw [withoutNulls_episode, snakeKeysToCamel, renameKeys_record episodeNames_distinct hrenamed,
          toCamel_episode, List.map_cons, List.map_congr_left hflat, List.map_id']
        rfl
      rw [hdocument, placementFromJson_tagged camelEpisodeNames_distinct, if_neg (by decide),
        if_pos rfl]
      refine episode_read hyear hseason hepisode (optional_none _) (optional_none _) ?_
      rw [taggedFields_lookup camelEpisodeNames_distinct (by decide)]
      let values := episodeValues title year season episode episodeEnd episodeTitle extension
      have hfound : ∀ (i : Nat) (name : Text) (value : Option Json),
          camelEpisodeNames[i]? = some name → values[i]? = some value →
            Json.lookup name (members camelEpisodeNames values) = value :=
        fun i name value hname hvalue =>
          lookup_members (List.nodup_cons.mp camelEpisodeNames_distinct).2 hname hvalue
      have hend : Json.lookup "episode_end".toList (members camelEpisodeNames values) = none :=
        lookup_members_of_notMem (by decide) values
      have hname : Json.lookup "episode_title".toList (members camelEpisodeNames values) = none :=
        lookup_members_of_notMem (by decide) values
      have htitle := hfound 0 "title".toList (some (ofText title)) rfl rfl
      have hyears := hfound 1 "year".toList (some (ofNat year)) rfl rfl
      have hseasons := hfound 2 "season".toList (some (ofNat season)) rfl rfl
      have hepisodes := hfound 3 "episode".toList (some (ofNat episode)) rfl rfl
      have hextension := hfound 6 "extension".toList (some (ofText extension)) rfl rfl
      simp only [episodeNames, names, List.map_cons, List.map_nil]
      rw [htitle, hyears, hseasons, hepisodes, hextension, hend, hname]
  | Track artist album year disc track title extension => exact track_reads (t := snakeKeysToCamel) h

end Placements

section Bodies

variable {t : Json → Json} [KeepsStructs t]

-- `t` turns every written placement into the one that `q` gives.
def ReadsPlacements (t : Json → Json) (q : Placement → Placement) : Prop :=
  ∀ placement, InRange placement →
    placementFromJson (t (withoutNulls (placementToJson placement))) = some (q placement)

variable {q : Placement → Placement} (hq : ReadsPlacements t q)

include hq

omit [KeepsStructs t] in
theorem read_placement {field : Option Placement} (h : ∀ placement ∈ field, InRange placement) :
    optional placementFromJson (sent t (field.map placementToJson)) = some (field.map q) := by
  cases field with
  | none => rfl
  | some placement =>
      have hdrop : dropNull (some (placementToJson placement)) =
          some (withoutNulls (placementToJson placement)) := by
        cases placement <;> rfl
      rw [Option.map_some, sent, hdrop]
      exact optional_some rfl (hq placement (h placement rfl))

theorem holdStatus_reads (s : HoldStatus) (h : ∀ n ∈ statusCounters (.Hold s), Wide n)
    (hrange : ∀ placement ∈ placementsOf (.Hold s), InRange placement) :
    holdStatusFromJson (t (withoutNulls (holdStatusToJson s))) =
      some { s with placement := s.placement.map q } := by
  simp only [statusCounters, List.forall_mem_cons] at h
  have hrange : ∀ placement ∈ s.placement, InRange placement := by simpa [placementsOf] using hrange
  have hplacement := read_placement hq hrange
  rw [holdStatusToJson, holdStatusFromJson, fields_sent (by simp [structNames]) rfl]
  simp [hplacement, readI64_i64 h.1.2, readI64_i64 h.2.1.2]

theorem syncEntry_reads (e : SyncEntry) (hrange : ∀ placement ∈ e.placement, InRange placement) :
    syncEntryFromJson (t (withoutNulls (syncEntryToJson e))) =
      some { e with placement := e.placement.map q } := by
  have hplacement := read_placement hq hrange
  have hjob : optional jobSpecFromJson (sent t (e.job.map jobSpecToJson)) = some e.job := by
    cases e.job with
    | none => rfl
    | some job => exact optional_some rfl (jobSpec_returns job)
  have hlen : defaulted 0 readU64 (sent t (unlessSkipped (e.fileLen = 0) (ofU64 e.fileLen))) =
      some e.fileLen := defaulted_skipped (by simp) (sent_u64 e.fileLen) (readU64_u64 e.fileLen)
  have hdisposition : readDisposition (ofText e.disposition.asStr) = some e.disposition :=
    readVariant_string (by decide) (by cases e.disposition <;> decide)
  rw [syncEntryToJson, syncEntryFromJson, fields_sent (by simp [structNames]) rfl]
  simp [hplacement, hjob, hlen, hdisposition]

theorem syncStatus_reads (s : SyncStatus) (h : ∀ n ∈ statusCounters (.Sync s), Wide n)
    (hrange : ∀ placement ∈ placementsOf (.Sync s), InRange placement) :
    syncStatusFromJson (t (withoutNulls (syncStatusToJson s))) =
      some { s with entries := s.entries.map fun e => { e with placement := e.placement.map q } } := by
  simp only [statusCounters, List.forall_mem_cons] at h
  obtain ⟨haccepted, hdeadline, hbaseline, hacceptance, hlist, hcluster, hsecret, -⟩ := h
  have hphase : readSyncPhase (ofText s.phase.asStr) = some s.phase :=
    readVariant_string (by decide) (by cases s.phase <;> decide)
  have hsnapshot : optional clusterSpecFromJson (sent t (s.cluster.map clusterSpecToJson)) =
      some s.cluster := by
    cases s.cluster with
    | none => rfl
    | some cluster => exact optional_some rfl (clusterSpec_returns cluster)
  have hentries : defaulted [] (readList syncEntryFromJson) (sent t (unlessSkipped s.entries.isEmpty
      (ofList syncEntryToJson s.entries))) =
      some (s.entries.map fun e => { e with placement := e.placement.map q }) := by
    refine read_list fun e he => syncEntry_reads hq e fun placement hmem => hrange placement ?_
    exact List.mem_filterMap.mpr ⟨e, he, hmem⟩
  rw [syncStatusToJson, syncStatusFromJson, fields_sent (by simp [structNames]) rfl]
  simp [hphase, hsnapshot, hentries, read_nonzero haccepted, read_nonzero hdeadline,
    read_nonzero hbaseline, read_nonzero hacceptance, read_nonzero hlist, read_nonzero hcluster,
    read_nonzero hsecret]

omit hq in
theorem specBody_reads (spec : Spec) :
    specBody spec.kind ((sent t (some (specToJson spec))).getD (.Object [])) = some spec := by
  cases spec with
  | Cluster s => exact congrArg (Option.map Spec.Cluster) (clusterSpec_returns s)
  | Secret s => exact congrArg (Option.map Spec.Secret) (secretSpec_returns s)
  | Title s => exact congrArg (Option.map Spec.Title) (titleSpec_returns s)
  | Want s => exact congrArg (Option.map Spec.Want) (wantSpec_returns s)
  | Job s => exact congrArg (Option.map Spec.Job) (jobSpec_returns s)
  | Hold s => exact congrArg (Option.map Spec.Hold) (holdSpec_returns s)
  | RemoteFile => rfl
  | Node s => exact congrArg (Option.map Spec.Node) (nodeSpec_returns s)
  | Event => rfl
  | Sync s => exact congrArg (Option.map Spec.Sync) (syncSpec_returns s)

-- The status with other placements.
def mapPlacements (q : Placement → Placement) : StatusBody → StatusBody
  | .Hold s => .Hold { s with placement := s.placement.map q }
  | .Sync s =>
      .Sync { s with entries := s.entries.map fun e => { e with placement := e.placement.map q } }
  | status => status

theorem statusBody_reads (status : StatusBody) (h : ∀ n ∈ statusCounters status, Wide n)
    (hrange : ∀ placement ∈ placementsOf status, InRange placement) :
    statusBody status.kind ((sent t (some (statusToJson status))).getD (.Object [])) =
      some (mapPlacements q status) := by
  cases status with
  | Cluster s => exact congrArg (Option.map StatusBody.Cluster) (clusterStatus_returns s h)
  | Secret => rfl
  | Title s => exact congrArg (Option.map StatusBody.Title) (titleStatus_returns s)
  | Want s => exact congrArg (Option.map StatusBody.Want) (wantStatus_returns s)
  | Job s => exact congrArg (Option.map StatusBody.Job) (jobStatus_returns s h)
  | Hold s => exact congrArg (Option.map StatusBody.Hold) (holdStatus_reads hq s h hrange)
  | RemoteFile s => exact congrArg (Option.map StatusBody.RemoteFile) (remoteFile_returns s h)
  | Node s => exact congrArg (Option.map StatusBody.Node) (nodeStatus_returns s h)
  | Event s => exact congrArg (Option.map StatusBody.Event) (event_returns s h)
  | Sync s => exact congrArg (Option.map StatusBody.Sync) (syncStatus_reads hq s h hrange)

end Bodies

section Objects

theorem rejectUnknown_record {ns allowed : List Text} (hns : ns ∈ structNames) (h : ns ⊆ allowed)
    (values : List (Option Json)) : rejectUnknown allowed (record ns values) = .ok () := by
  have hknown : (Json.keys (Json.ofList (members ns values))).find? (fun key => key ∉ allowed) = none := by
    rw [List.find?_eq_none]
    intro key hkey
    simpa using h (keys_record (structNames_distinct ns hns) values key hkey)
  rw [record, rejectUnknown, hknown]
  rfl

variable {t : Json → Json} [KeepsStructs t] {q : Placement → Placement}

-- The document behind `t`, member by member.
theorem document_sent (obj : HomeObject) :
    t (document obj) = record objectNames
      [some (ofText obj.apiVersion), some (ofText obj.kind.asStr),
        some (record metadataNames
          [some (ofText obj.metadata.name), some (ofText obj.metadata.uid),
            some (ofI64 obj.metadata.generation), some (ofI64 obj.metadata.resourceVersion)]),
        sent t (some (specToJson obj.spec)), sent t (some (statusToJson obj.status))] := by
  have hmetadata : sent t (some (metadataToJson obj.metadata)) = some (record metadataNames
      [some (ofText obj.metadata.name), some (ofText obj.metadata.uid),
        some (ofI64 obj.metadata.generation), some (ofI64 obj.metadata.resourceVersion)]) := by
    have hstruct : sent t (some (metadataToJson obj.metadata)) =
        some (t (withoutNulls (metadataToJson obj.metadata))) := rfl
    rw [hstruct, metadataToJson, struct_sent (t := t) (by simp [structNames])]
    simp
  rw [document, toJson, struct_sent (t := t) (by simp [structNames])]
  simp [hmetadata]

-- The document is read as the object, up to what `t` makes of its placements.
theorem fromDocument_sent (specText statusText : Kind → Json → Text) (hq : ReadsPlacements t q)
    {obj : HomeObject} (hagrees : obj.Agrees) (hwide : ∀ n ∈ counters obj, Wide n)
    (hrange : ∀ placement ∈ placementsOf obj.status, InRange placement) :
    fromDocument specText statusText (t (document obj)) =
      .ok { obj with status := mapPlacements q obj.status } := by
  have hobject : objectNames.Nodup := structNames_distinct _ (by simp [structNames])
  have hmetadata : metadataNames.Nodup := structNames_distinct _ (by simp [structNames])
  have hspec := specBody_reads (t := t) obj.spec
  have hstatus := statusBody_reads hq obj.status
    (fun n hn => hwide n (List.mem_append_right _ hn)) hrange
  rw [hagrees.1] at hspec
  rw [hagrees.2] at hstatus
  simp only [counters, List.cons_append, List.nil_append, List.forall_mem_cons] at hwide
  obtain ⟨hgeneration, hversion, -⟩ := hwide
  have hkind : Kind.parse obj.kind.asStr = .ok obj.kind := Proto.kind_returns obj.kind
  have hread : ∀ n : Int, Wide n → (some (ofI64 n)).bind readI64 = some n :=
    fun n hn => readI64_i64 hn.2
  have hmember : ∀ (values : List (Option Json)) (i : Nat) (name : Text) (value : Option Json),
      objectNames[i]? = some name → values[i]? = some value →
        (record objectNames values).get name = value :=
    fun values i name value => get_record hobject
  have hdatum : ∀ (values : List (Option Json)) (i : Nat) (name : Text) (value : Option Json),
      metadataNames[i]? = some name → values[i]? = some value →
        (record metadataNames values).get name = value :=
    fun values i name value => get_record hmetadata
  rw [document_sent (t := t), fromDocument,
    rejectUnknown_record (by simp [structNames]) (by decide +kernel),
    hmember _ 0 "apiVersion".toList _ rfl rfl, hmember _ 1 "kind".toList _ rfl rfl,
    hmember _ 2 "metadata".toList _ rfl rfl, hmember _ 3 "spec".toList _ rfl rfl,
    hmember _ 4 "status".toList _ rfl rfl]
  have hknown : ∀ values : List (Option Json),
      rejectUnknown (names ["name", "uid", "generation", "resourceVersion", "resource_version"])
        (record metadataNames values) = .ok () :=
    rejectUnknown_record (by simp [structNames]) (by decide +kernel)
  simp only [Option.getD_some, hknown]
  rw [hdatum _ 0 "name".toList _ rfl rfl, hdatum _ 1 "uid".toList _ rfl rfl,
    hdatum _ 2 "generation".toList _ rfl rfl, hdatum _ 3 "resourceVersion".toList _ rfl rfl]
  simp only [Option.some_or, hread _ hgeneration, hread _ hversion, specFromValue, statusFromValue]
  have htext : ∀ text : Text, (some (ofText text)).bind Json.asStr = some text := fun _ => rfl
  simp only [htext, hkind, Option.getD_some, bind, Except.bind, hspec, hstatus]
  rfl

theorem mapPlacements_eq {status : StatusBody} :
    mapPlacements q status = status ↔ ∀ placement ∈ placementsOf status, q placement = placement := by
  have hfield : ∀ field : Option Placement,
      field.map q = field ↔ ∀ placement ∈ field, q placement = placement := by
    intro field
    cases field <;> simp
  cases status with
  | Hold s =>
      have hsame : mapPlacements q (.Hold s) = .Hold s ↔ s.placement.map q = s.placement := by
        obtain ⟨_, _, _, _, placement⟩ := s
        simp [mapPlacements]
      rw [hsame, hfield]
      simp [placementsOf]
  | Sync s =>
      have hentry : ∀ e : SyncEntry, ({ e with placement := e.placement.map q } : SyncEntry) = e ↔
          e.placement.map q = e.placement := by
        intro e
        obtain ⟨_, _, _, _, placement⟩ := e
        simp
      have hsame : mapPlacements q (.Sync s) = .Sync s ↔
          ∀ e ∈ s.entries, ({ e with placement := e.placement.map q } : SyncEntry) = e := by
        obtain ⟨_, _, _, _, _, _, _, _, _, entries⟩ := s
        simp only [mapPlacements, StatusBody.Sync.injEq, SyncStatus.mk.injEq, true_and, and_true]
        conv_lhs => rhs; rw [← List.map_id entries]
        exact List.map_inj_left
      rw [hsame]
      simp only [hentry, hfield, placementsOf, List.mem_filterMap]
      constructor
      · rintro h placement ⟨e, he, hmem⟩
        exact h e he placement hmem
      · exact fun h e he placement hmem => h placement ⟨e, he, hmem⟩
  | _ => simp [mapPlacements, placementsOf]

end Objects

-- An object's document is read as the object.
theorem fromDocument_document (specText statusText : Kind → Json → Text) {obj : HomeObject}
    (hagrees : obj.Agrees) (hwide : ∀ n ∈ counters obj, Wide n)
    (hrange : ∀ placement ∈ placementsOf obj.status, InRange placement) :
    fromDocument specText statusText (document obj) = .ok obj := by
  have hsame : ReadsPlacements id id := fun _ h => placement_reads h
  have hread := fromDocument_sent specText statusText hsame hagrees hwide hrange
  have hkept : mapPlacements id obj.status = obj.status := mapPlacements_eq.mpr fun _ _ => rfl
  rw [id_eq, hkept] at hread
  exact hread

theorem fromDocument_camel [UppercaseTable] (specText statusText : Kind → Json → Text)
    {obj : HomeObject} (hagrees : obj.Agrees) (hwide : ∀ n ∈ counters obj, Wide n)
    (hrange : ∀ placement ∈ placementsOf obj.status, InRange placement) :
    fromDocument specText statusText (snakeKeysToCamel (document obj)) =
      .ok { obj with status := mapPlacements plain obj.status } :=
  fromDocument_sent specText statusText (fun _ h => placement_renamed h) hagrees hwide hrange

-- An object means the same in both formats unless it has an episode with an end or
-- a title of its own.
theorem formats_agree [UnicodeTables] [UppercaseTable] (specText statusText : Kind → Json → Text)
    (obj : HomeObject)
    (hvalid : obj.validate = .ok ()) (hwide : ∀ n ∈ counters obj, Wide n)
    (hrange : ∀ placement ∈ placementsOf obj.status, InRange placement) :
    FormatsAgree specText statusText obj ↔ ∀ placement ∈ placementsOf obj.status, Plain placement := by
  have hagrees := (HomeObject.validate_ok hvalid).agrees
  rw [FormatsAgree, fromDocument_camel specText statusText hagrees hwide hrange,
    fromDocument_document specText statusText hagrees hwide hrange]
  have hstatus : (Except.ok { obj with status := mapPlacements plain obj.status } =
      (Except.ok obj : Except HomeError HomeObject)) ↔
        mapPlacements plain obj.status = obj.status := by
    constructor
    · intro h
      exact congrArg HomeObject.status (Except.ok.inj h)
    · intro h
      rw [h]
  rw [hstatus, mapPlacements_eq]
  exact forall₂_congr fun placement _ => plain_eq

-- A request has no placement.
example :
    let := UppercaseTable.ascii
    FormatsAgree (fun _ _ => []) (fun _ _ => [])
      (.new .Sync "evening".toList (.Sync {}) (StatusBody.empty .Sync)) := by
  unfold FormatsAgree
  decide +kernel

namespace Sample

-- A Hold for one release of an episode.
def hold (placement : Placement) : HomeObject :=
  .new .Hold "series:tvdb:79126-rel".toList
    (.Hold { titleId := "series:tvdb:79126".toList, releaseId := "rel".toList })
    (.Hold { listGeneration := 1, remoteRoot := "box".toList, remotePath := "a.mkv".toList,
             placement := some placement, release := "rel".toList })

def pilot (episodeTitle : Option Text) : Placement :=
  .Episode "Wire".toList 2002 1 1 none episodeTitle "mkv".toList

theorem hold_wide (placement : Placement) : ∀ n ∈ counters (hold placement), Wide n := by
  simp [counters, statusCounters, hold, HomeObject.new, Wide]

theorem hold_valid :
    let := UnicodeTables.ascii
    (hold (pilot none)).validate = .ok () := by
  decide +kernel

end Sample

theorem formats_agree_untitled :
    let := UnicodeTables.ascii
    let := UppercaseTable.ascii
    FormatsAgree (fun _ _ => []) (fun _ _ => []) (Sample.hold (Sample.pilot none)) := by
  refine (@formats_agree UnicodeTables.ascii UppercaseTable.ascii (fun _ _ => []) (fun _ _ => [])
    (Sample.hold (Sample.pilot none)) Sample.hold_valid (Sample.hold_wide _) ?_).mpr ?_
  · simp [Sample.hold, HomeObject.new, placementsOf, Sample.pilot, InRange]
  · simp [Sample.hold, HomeObject.new, placementsOf, Sample.pilot, Plain]

-- A title of the episode is read from its JSON and not from its TOML.
theorem formats_agree_titled :
    @HomeObject.validate UnicodeTables.ascii (Sample.hold (Sample.pilot (some "Target".toList))) =
        .ok () ∧
      ¬@FormatsAgree UppercaseTable.ascii (fun _ _ => []) (fun _ _ => [])
        (Sample.hold (Sample.pilot (some "Target".toList))) := by
  refine ⟨by decide +kernel, fun h => ?_⟩
  have hplacements := congrArg (fun read => read.toOption.map fun obj => placementsOf obj.status) h
  revert hplacements
  decide +kernel

end Mediaops.Document
