import Mediaops.Core.Home

namespace Mediaops.Arr

-- The grabber's and the edge's part of a desired state, as its parser accepts it.

-- `BTreeMap<String, α>`
structure TextMap (α : Type) where
  entries : List (Text × α)
  sorted : entries.Pairwise fun a b => a.1 < b.1

namespace TextMap

variable {α : Type} (map : TextMap α)

def get (key : Text) : Option α := (map.entries.find? fun entry => entry.1 = key).map Prod.snd

def keys : List Text := map.entries.map Prod.fst

theorem keys_nodup : map.keys.Nodup := by
  rw [keys, List.Nodup, List.pairwise_map]
  exact map.sorted.imp fun hlt => ne_of_lt (α := Text) hlt

end TextMap

structure GrabIndexer where
  name : Text
  priority : Int32
  app : Text
  implementation : Text
  enable : Bool := true
  protocol : Option Text := none
  configContract : Option Text := none
  fields : TextMap Text

inductive DownloadClientKind where
  | Sabnzbd
  | Qbittorrent
  deriving DecidableEq, Repr

def DownloadClientKind.implementation : DownloadClientKind → Text
  | .Sabnzbd => "Sabnzbd"
  | .Qbittorrent => "QBittorrent"

structure GrabDownloadClient where
  name : Text
  priority : Int32
  kind : DownloadClientKind
  implementation : Option Text := none
  enable : Bool := true
  fields : TextMap Text

def GrabDownloadClient.implementationName (client : GrabDownloadClient) : Text :=
  client.implementation.getD client.kind.implementation

structure CustomFormatPack where
  name : Text
  scores : TextMap Int32

structure GrabPolicy where
  delayMinutes : Option UInt32 := none
  qualityProfile : Option Text := none

structure Grab where
  indexers : List GrabIndexer := []
  downloadClients : List GrabDownloadClient := []
  customFormatPacks : List CustomFormatPack := []
  policy : GrabPolicy := {}

structure Edge where
  urlBases : TextMap Text
  bind : Text
  auth : Text

-- What the document has once its syntax is read.
structure DesiredStateToml where
  grabber : Grabber := .None
  grab : Grab := {}
  edge : Option Edge := none

inductive DesiredStateError where
  | DuplicateName (field name : Text)
  deriving DecidableEq, Repr

def rejectDuplicates {α : Type} (key : α → Text) (error : α → DesiredStateError) :
    List Text → List α → Except DesiredStateError Unit
  | _, [] => .ok ()
  | seen, item :: rest =>
      if key item ∈ seen then .error (error item)
      else rejectDuplicates key error (key item :: seen) rest

def rejectDuplicateNames (names : List Text) (field : Text) : Except DesiredStateError Unit :=
  rejectDuplicates id (.DuplicateName field) [] names

def indexerKey (idx : GrabIndexer) : Text := idx.app ++ '/' :: idx.name

def rejectDuplicateIndexers (indexers : List GrabIndexer) : Except DesiredStateError Unit :=
  rejectDuplicates indexerKey
    (fun idx => .DuplicateName "grab.indexers.app+name" (idx.name ++ '@' :: idx.app)) [] indexers

structure DesiredState where
  grabber : Grabber
  grab : Grab
  edge : Option Edge

def fromToml (raw : DesiredStateToml) : Except DesiredStateError DesiredState := do
  rejectDuplicateIndexers raw.grab.indexers
  rejectDuplicateNames (raw.grab.downloadClients.map (·.name)) "grab.download_clients.name"
  rejectDuplicateNames (raw.grab.customFormatPacks.map (·.name)) "grab.custom_format_packs.name"
  pure { grabber := raw.grabber, grab := raw.grab, edge := raw.edge }

theorem rejectDuplicates_ok {α : Type} {key : α → Text} {error : α → DesiredStateError}
    {seen : List Text} {items : List α} (h : rejectDuplicates key error seen items = .ok ()) :
    (items.map key).Nodup ∧ ∀ item ∈ items, key item ∉ seen := by
  induction items generalizing seen with
  | nil => exact ⟨List.nodup_nil, fun _ hitem => absurd hitem List.not_mem_nil⟩
  | cons item rest ih =>
      rw [rejectDuplicates] at h
      by_cases hseen : key item ∈ seen
      · rw [if_pos hseen] at h
        cases h
      · rw [if_neg hseen] at h
        obtain ⟨hrest, hfree⟩ := ih h
        constructor
        · rw [List.map_cons, List.nodup_cons]
          refine ⟨fun hmem => ?_, hrest⟩
          obtain ⟨other, hother, hkey⟩ := List.mem_map.mp hmem
          exact hfree other hother (hkey ▸ List.mem_cons_self)
        · intro other hother
          rcases List.mem_cons.mp hother with rfl | hother
          · exact hseen
          · exact fun hmem => hfree other hother (List.mem_cons_of_mem _ hmem)

-- What the parser leaves of the lists that are applied.
structure Grab.Distinct (grab : Grab) : Prop where
  indexers : (grab.indexers.map indexerKey).Nodup
  downloadClients : (grab.downloadClients.map (·.name)).Nodup

theorem fromToml_distinct {raw : DesiredStateToml} {desired : DesiredState}
    (h : fromToml raw = .ok desired) : desired.grab.Distinct := by
  unfold fromToml at h
  cases hindexers : rejectDuplicateIndexers raw.grab.indexers with
  | error err =>
      rw [hindexers] at h
      cases h
  | ok _ =>
      cases hclients : rejectDuplicateNames (raw.grab.downloadClients.map (·.name))
          "grab.download_clients.name" with
      | error err =>
          rw [hindexers, hclients] at h
          cases h
      | ok _ =>
          cases hpacks : rejectDuplicateNames (raw.grab.customFormatPacks.map (·.name))
              "grab.custom_format_packs.name" with
          | error err =>
              rw [hindexers, hclients, hpacks] at h
              cases h
          | ok _ =>
              rw [hindexers, hclients, hpacks] at h
              obtain rfl := Except.ok.inj h
              refine ⟨(rejectDuplicates_ok hindexers).1, ?_⟩
              simpa using (rejectDuplicates_ok hclients).1

-- Two indexers of one app have two names.
theorem Grab.Distinct.indexers_of_app {grab : Grab} (h : grab.Distinct) (app : Text) :
    ((grab.indexers.filter fun idx => idx.app = app).map (·.name)).Nodup := by
  have hall := h.indexers
  rw [List.Nodup, List.pairwise_map] at hall ⊢
  rw [List.pairwise_filter]
  refine hall.imp ?_
  intro a b hkey ha hb hname
  simp only [decide_eq_true_eq] at ha hb
  exact hkey (by rw [indexerKey, indexerKey, ha, hb, hname])

end Mediaops.Arr
