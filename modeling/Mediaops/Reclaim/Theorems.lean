import Mediaops.Reclaim
import Mediaops.Core.PathSchema.Theorems

namespace Mediaops.Reclaim

open Walker Checks PathSchema

section Identity

variable [UnicodeTables]

theorem keyTitleId_ok {placement other : Placement} {id : TitleId}
    (h : placement.keyTitleId = .ok id) (hsame : match placement, other with
      | .Movie title year _, .Movie title' year' _ => title = title' ∧ year = year'
      | .Episode title year .., .Episode title' year' .. => title = title' ∧ year = year'
      | .Track artist album .., .Track artist' album' .. => artist = artist' ∧ album = album'
      | _, _ => False) : other.keyTitleId = .ok id := by
  have hkey := mapError_ok h
  unfold Placement.keyTitleId
  cases placement <;> cases other <;> first
    | exact hsame.elim
    | (obtain ⟨rfl, rfl⟩ := hsame
       exact mapError_ok_iff.mpr hkey)

-- The library path of a remote file reads back to the title of that file, even
-- where it reads back to another file of the title.
theorem reparse_title {kind : Option TitleKind} {path library : Text} {id id' : TitleId}
    {placement placement' : Placement} (hparse : parseRemote kind path = .ok (id, placement))
    (hrender : renderPlacement placement = .ok library)
    (hback : parsePlacement library = .ok (id', placement')) : id' = id := by
  obtain ⟨hparsed, hkey⟩ := parseInner_parsed hparse
  have hsame : placement'.keyTitleId = .ok id' ∧ placement'.keyTitleId = .ok id := by
    cases hparsed with
    | Movie htitle hext =>
        rw [movie_canonical htitle hext hrender] at hback
        obtain ⟨hid, rfl⟩ := keyed_ok.mp hback
        exact ⟨hid, hkey⟩
    | Episode htitle hnames hext =>
        have hcanon := episode_canonical htitle hnames hext hrender
        dsimp only at hcanon
        rw [hcanon] at hback
        obtain ⟨-, hback⟩ := ite_ok hback
        obtain ⟨hid, rfl⟩ := keyed_ok.mp hback
        exact ⟨hid, keyTitleId_ok hkey ⟨rfl, rfl⟩⟩
    | Track hartist halbum htitle hext =>
        rw [track_canonical hartist halbum htitle hext hrender] at hback
        obtain ⟨found, hfound, hback⟩ := bind_ok hback
        obtain ⟨⟨track, title⟩, -, hfinish⟩ := bind_ok hfound
        obtain ⟨hid, rfl⟩ := keyed_ok.mp hback
        rw [finishTrack_ok hfinish] at hid ⊢
        exact ⟨hid, keyTitleId_ok hkey ⟨rfl, rfl⟩⟩
  exact Except.ok.inj (hsame.1.symm.trans hsame.2)

end Identity

section Scan

variable [UnicodeTables]

-- A file of the scan is what its own path parses to.
def Scanned (file : InstalledFile) : Prop :=
  ∃ placement, parsePlacement file.path = .ok (file.titleId, placement) ∧
    file.fileKey = placement.fileKey

theorem fromRelPath_scanned {rel : Text} {file : InstalledFile}
    (h : InstalledFile.fromRelPath rel = .ok file) : Scanned file := by
  obtain ⟨⟨id, placement⟩, hparse, hfile⟩ := bind_ok h
  cases hfile
  exact ⟨placement, hparse, rfl⟩

theorem scanFile_scanned {rel : List FileName} {name : FileName} {file : InstalledFile}
    (h : file ∈ scanFile rel name) : Scanned file := by
  unfold scanFile at h
  dsimp only at h
  split at h
  · split at h
    · next found hfound =>
        obtain rfl : file = found := by simpa using h
        exact fromRelPath_scanned hfound
    · cases h
  · cases h

theorem scanTree_scanned {maxDepth : Nat} {entries : Entries} :
    ∀ {rel : List FileName} {depth : Nat} {files : List InstalledFile},
      scanTree rel depth maxDepth entries = .ok files → ∀ file ∈ files, Scanned file := by
  induction entries with
  | Nil =>
      intro rel depth files h file hfile
      cases h
      cases hfile
  | File name info rest ih =>
      intro rel depth files h file hfile
      obtain ⟨later, hlater, hfiles⟩ := bind_ok h
      cases hfiles
      rcases List.mem_append.mp hfile with hmem | hmem
      · exact scanFile_scanned hmem
      · exact ih hlater file hmem
  | Dir name readable children rest ihc ih =>
      intro rel depth files h file hfile
      obtain ⟨here, hhere, h⟩ := bind_ok h
      obtain ⟨later, hlater, hfiles⟩ := bind_ok h
      cases hfiles
      rcases List.mem_append.mp hfile with hmem | hmem
      · split at hhere
        · split at hhere
          · exact ihc hhere file hmem
          · cases hhere
        · cases hhere
          cases hmem
      · exact ih hlater file hmem
  | Symlink name rest ih => exact ih
  | Other name rest ih => exact ih

theorem scanKind_scanned {library : Entries} {kind : FileName} {files : List InstalledFile}
    (h : scanKind library kind = .ok files) : ∀ file ∈ files, Scanned file := by
  intro file hfile
  unfold scanKind at h
  split at h
  · split at h
    · exact scanTree_scanned h file hfile
    · cases h
  · cases h
    cases hfile

theorem scanKinds_scanned {library : Entries} {kinds : List FileName} :
    ∀ {files : List InstalledFile}, scanKinds library kinds = .ok files →
      ∀ file ∈ files, Scanned file := by
  induction kinds with
  | nil =>
      intro files h file hfile
      cases h
      cases hfile
  | cons kind rest ih =>
      intro files h file hfile
      obtain ⟨here, hhere, h⟩ := bind_ok h
      obtain ⟨later, hlater, hfiles⟩ := bind_ok h
      cases hfiles
      rcases List.mem_append.mp hfile with hmem | hmem
      · exact scanKind_scanned hhere file hmem
      · exact ih hlater file hmem

theorem scanSchemaFiles_scanned {library : Entries} {files : List InstalledFile}
    (h : scanSchemaFiles library = .ok files) : ∀ file ∈ files, Scanned file :=
  scanKinds_scanned h

end Scan

section Best

variable {R : Type} [LinearOrder R]

-- The place of a listed file in the order of deletions: the torrent that counts is the
-- greatest by privacy and ratio of those that match the file, and the file's age comes last.
def Ranks [UnicodeTables] (zero : R) (torrents : List (GuardPreviewItem R)) (entry : RemoteEntry)
    (rank : Bool ×ₗ R ×ₗ Int) : Prop :=
  (∃ t ∈ torrents, t.matchesRemote entry.ref = true ∧
      rank = toLex (t.isPrivate, toLex (t.ratio, entry.mtime)) ∧
      ∀ other ∈ torrents, other.matchesRemote entry.ref = true → torrentRank other ≤ torrentRank t) ∨
    (∀ t ∈ torrents, t.matchesRemote entry.ref = false) ∧
      rank = toLex (false, toLex (zero, entry.mtime))

theorem best_none {items : List (GuardPreviewItem R)} (h : best items = none) : items = [] := by
  cases items with
  | nil => rfl
  | cons item rest =>
      rw [best] at h
      split at h
      · cases h
      · split at h <;> cases h

theorem best_greatest {items : List (GuardPreviewItem R)} {item : GuardPreviewItem R}
    (h : best items = some item) :
    item ∈ items ∧ ∀ other ∈ items, torrentRank other ≤ torrentRank item := by
  induction items generalizing item with
  | nil => cases h
  | cons first rest ih =>
      rw [best] at h
      split at h
      · next hnone =>
        cases h
        simp [best_none hnone]
      · next later hlater =>
        obtain ⟨hmem, hgreatest⟩ := ih hlater
        split at h
        · next hle =>
          cases h
          refine ⟨List.mem_cons_of_mem _ hmem, fun other hother => ?_⟩
          rcases List.mem_cons.mp hother with rfl | hother
          · exact hle
          · exact hgreatest other hother
        · next hlt =>
          cases h
          refine ⟨List.mem_cons_self, fun other hother => ?_⟩
          rcases List.mem_cons.mp hother with rfl | hother
          · exact le_refl _
          · exact (hgreatest other hother).trans (le_of_not_ge hlt)

def rankOf (items : List (GuardPreviewItem R)) : Option (Bool ×ₗ R) :=
  (best items).map torrentRank

theorem rankOf_cons (item : GuardPreviewItem R) (rest : List (GuardPreviewItem R)) :
    rankOf (item :: rest) =
      some ((rankOf rest).elim (torrentRank item) (max (torrentRank item))) := by
  unfold rankOf
  rw [best]
  cases best rest with
  | none => rfl
  | some other =>
      by_cases hle : torrentRank item ≤ torrentRank other
      · simp [hle]
      · simp [hle, max_eq_left (le_of_not_ge hle)]

-- The rank of the best torrent is the greatest one, whatever their order.
theorem rankOf_perm {items items' : List (GuardPreviewItem R)} (h : items.Perm items') :
    rankOf items = rankOf items' := by
  induction h with
  | nil => rfl
  | cons item h ih => rw [rankOf_cons, rankOf_cons, ih]
  | swap first second rest =>
      simp only [rankOf_cons]
      cases rankOf rest with
      | none => simp [max_comm]
      | some rank => simp [max_left_comm]
  | trans _ _ ih ih' => exact ih.trans ih'

end Best

section Preview

variable [UnicodeTables] {R : Type} [LinearOrder R] {goalRatio zero : R} {rootKinds : RootKinds}
  {listings listings' : List RemoteEntry} {titleIndex titleIndex' : List TitleIndexEntry}
  {onDisk onDisk' : List InstalledFile} {torrents torrents' : List (GuardPreviewItem R)}

omit [UnicodeTables] in
theorem any_perm {α : Type} {xs ys : List α} (h : xs.Perm ys) (p : α → Bool) :
    xs.any p = ys.any p := by
  apply Bool.eq_iff_iff.mpr
  simp only [List.any_eq_true, h.mem_iff]

omit [LinearOrder R] in
-- What a candidate stands on.
theorem provedEntry_some {entry : RemoteEntry} {candidate : ReclaimCandidate R}
    (h : provedEntry rootKinds titleIndex onDisk entry = some candidate) :
    entry.nlink ≤ 1 ∧ (candidate.remote = entry.ref ∧ candidate.mtime = entry.mtime ∧
      candidate.ratio = none ∧ candidate.isPrivate = none) ∧ ∃ id placement path,
      classifyRemote rootKinds entry = .ok (id, placement) ∧
      renderPlacement placement = .ok path ∧ (∃ file ∈ onDisk, file.path = path) ∧
      ∃ row ∈ titleIndex, indexes row id placement path = true := by
  unfold provedEntry at h
  split at h
  · cases h
  next hlink =>
    split at h
    · cases h
    next id placement hclass =>
      split at h
      · cases h
      next path hrender =>
        split at h
        · next hproved =>
            simp only [Bool.and_eq_true, List.any_eq_true, decide_eq_true_eq] at hproved
            cases h
            exact ⟨by omega, ⟨rfl, rfl, rfl, rfl⟩, id, placement, path, hclass, hrender, hproved.1, hproved.2⟩
        · cases h

theorem previewOne_some {candidate shown : ReclaimCandidate R}
    (h : previewOne goalRatio torrents candidate = some shown) :
    shown = withRank candidate (torrents.filter fun t => t.matchesRemote candidate.remote) ∧
      ∀ t ∈ torrents, t.matchesRemote candidate.remote = true → t.blocksDelete goalRatio = false := by
  unfold previewOne at h
  dsimp only at h
  split at h
  · cases h
  next hfree =>
    cases h
    refine ⟨rfl, fun t ht hmatch => ?_⟩
    by_contra hblocks
    rw [Bool.not_eq_false] at hblocks
    exact hfree (List.any_eq_true.mpr ⟨t, List.mem_filter.mpr ⟨ht, hmatch⟩, hblocks⟩)

theorem withRank_remote (candidate : ReclaimCandidate R) (covering : List (GuardPreviewItem R)) :
    (withRank candidate covering).remote = candidate.remote := by
  unfold withRank
  split <;> rfl

-- What is sorted by is the rank of the listed file.
theorem rankKey_ranks {entry : RemoteEntry} {candidate : ReclaimCandidate R}
    (hremote : candidate.remote = entry.ref) (hmtime : candidate.mtime = entry.mtime)
    (hratio : candidate.ratio = none) (hprivate : candidate.isPrivate = none) :
    Ranks zero torrents entry (rankKey zero
      (withRank candidate (torrents.filter fun t => t.matchesRemote candidate.remote))) := by
  rw [hremote]
  unfold withRank
  split
  · next item hbest =>
    obtain ⟨hmem, hgreatest⟩ := best_greatest hbest
    obtain ⟨ht, hmatch⟩ := List.mem_filter.mp hmem
    refine .inl ⟨item, ht, hmatch, by simp [rankKey, hmtime], fun other hother hsame => ?_⟩
    exact hgreatest other (List.mem_filter.mpr ⟨hother, hsame⟩)
  · next hbest =>
    refine .inr ⟨fun t ht => ?_, by simp [rankKey, hmtime, hratio, hprivate]⟩
    have hnone : t ∉ torrents.filter fun t => t.matchesRemote entry.ref := by simp [best_none hbest]
    simpa [ht] using hnone

omit [LinearOrder R] in
theorem provedEntry_perm (hi : titleIndex.Perm titleIndex') (hd : onDisk.Perm onDisk')
    (entry : RemoteEntry) :
    (provedEntry rootKinds titleIndex onDisk entry : Option (ReclaimCandidate R)) =
      provedEntry rootKinds titleIndex' onDisk' entry := by
  simp only [provedEntry, any_perm hi, any_perm hd]

theorem withRank_perm {covering covering' : List (GuardPreviewItem R)}
    (h : covering.Perm covering') (candidate : ReclaimCandidate R) :
    withRank candidate covering = withRank candidate covering' := by
  have hrank := rankOf_perm h
  unfold rankOf at hrank
  unfold withRank
  cases hb : best covering with
  | none =>
      rw [hb] at hrank
      rw [Option.map_eq_none_iff.mp hrank.symm]
  | some item =>
      rw [hb] at hrank
      obtain ⟨other, hother, hsame⟩ := Option.map_eq_some_iff.mp hrank.symm
      have hfields : (other.isPrivate, other.ratio) = (item.isPrivate, item.ratio) :=
        toLex.injective hsame
      rw [hother]
      simp only [(Prod.mk.inj hfields).1, (Prod.mk.inj hfields).2]

theorem previewOne_perm (ht : torrents.Perm torrents') (candidate : ReclaimCandidate R) :
    previewOne goalRatio torrents candidate = previewOne goalRatio torrents' candidate := by
  have hcover := ht.filter fun t => t.matchesRemote candidate.remote
  unfold previewOne
  dsimp only
  rw [any_perm hcover, withRank_perm hcover]

theorem reclaimPreview_perm (hl : listings.Perm listings') (hi : titleIndex.Perm titleIndex')
    (hd : onDisk.Perm onDisk') (ht : torrents.Perm torrents') :
    (reclaimPreview goalRatio zero listings rootKinds titleIndex onDisk torrents).Perm
      (reclaimPreview goalRatio zero listings' rootKinds titleIndex' onDisk' torrents') := by
  have hproved : provedEntry (R := R) rootKinds titleIndex onDisk =
      provedEntry rootKinds titleIndex' onDisk' := funext (provedEntry_perm hi hd)
  have hshown : previewOne goalRatio torrents = previewOne goalRatio torrents' :=
    funext (previewOne_perm ht)
  unfold reclaimPreview reclaimProved
  rw [hproved, hshown]
  exact (List.perm_insertionSort _ _).trans
    (((hl.filterMap _).filterMap _).trans (List.perm_insertionSort _ _).symm)

-- A listed file with the candidate that is shown for it.
def previewEntry (goalRatio : R) (rootKinds : RootKinds) (titleIndex : List TitleIndexEntry)
    (onDisk : List InstalledFile) (torrents : List (GuardPreviewItem R)) (entry : RemoteEntry) :
    Option (RemoteEntry × ReclaimCandidate R) :=
  ((provedEntry rootKinds titleIndex onDisk entry).bind (previewOne goalRatio torrents)).map
    (entry, ·)

theorem previewEntry_ranks {entry : RemoteEntry} {pair : RemoteEntry × ReclaimCandidate R}
    (h : previewEntry goalRatio rootKinds titleIndex onDisk torrents entry = some pair) :
    pair.1 = entry ∧ pair.2.remote = entry.ref ∧
      Ranks zero torrents entry (rankKey zero pair.2) := by
  obtain ⟨shown, hshown, rfl⟩ := Option.map_eq_some_iff.mp h
  obtain ⟨candidate, hproved, hpreview⟩ := Option.bind_eq_some_iff.mp hshown
  obtain ⟨-, ⟨href, hmtime, hratio, hprivate⟩, -⟩ := provedEntry_some hproved
  obtain ⟨rfl, -⟩ := previewOne_some hpreview
  exact ⟨rfl, (withRank_remote _ _).trans href, rankKey_ranks href hmtime hratio hprivate⟩

theorem previewEntries_snd :
    (listings.filterMap (previewEntry goalRatio rootKinds titleIndex onDisk torrents)).map Prod.snd =
      (reclaimProved listings rootKinds titleIndex onDisk).filterMap
        (previewOne goalRatio torrents) := by
  rw [reclaimProved, List.filterMap_filterMap, List.map_filterMap]
  simp [previewEntry]

theorem previewEntries_fst :
    ((listings.filterMap (previewEntry goalRatio rootKinds titleIndex onDisk torrents)).map
      Prod.fst).Sublist listings := by
  induction listings with
  | nil => exact List.Sublist.refl _
  | cons entry rest ih =>
      cases hpair : previewEntry goalRatio rootKinds titleIndex onDisk torrents entry with
      | none =>
          rw [List.filterMap_cons_none hpair]
          exact ih.cons entry
      | some pair =>
          obtain ⟨shown, -, rfl⟩ := Option.map_eq_some_iff.mp hpair
          rw [List.filterMap_cons_some hpair]
          exact ih.cons_cons entry

-- The proposals are listed files, none of them more often than it is listed, in the order
-- of their ranks.
theorem reclaimActions_ranked :
    ∃ ranked : List (RemoteEntry × (Bool ×ₗ R ×ₗ Int)),
      reclaimActions goalRatio zero listings rootKinds titleIndex onDisk torrents =
        ranked.map (fun shown => shown.1.ref) ∧
      (ranked.map Prod.fst).Subperm listings ∧
      (∀ shown ∈ ranked, Ranks zero torrents shown.1 shown.2) ∧
      ranked.Pairwise fun a b => a.2 ≤ b.2 := by
  have htotal : Std.Total fun a b : RemoteEntry × ReclaimCandidate R =>
      rankKey zero a.2 ≤ rankKey zero b.2 := ⟨fun a b => le_total _ _⟩
  have htrans : IsTrans (RemoteEntry × ReclaimCandidate R) fun a b =>
      rankKey zero a.2 ≤ rankKey zero b.2 := ⟨fun a b c => le_trans⟩
  -- The sort moves each candidate together with its listed file.
  obtain ⟨pairs, hperm, hsorted, hpreview⟩ : ∃ pairs : List (RemoteEntry × ReclaimCandidate R),
      pairs.Perm (listings.filterMap (previewEntry goalRatio rootKinds titleIndex onDisk torrents)) ∧
      pairs.Pairwise (fun a b => rankKey zero a.2 ≤ rankKey zero b.2) ∧
      reclaimPreview goalRatio zero listings rootKinds titleIndex onDisk torrents =
        pairs.map Prod.snd := by
    refine ⟨(listings.filterMap (previewEntry goalRatio rootKinds titleIndex onDisk
      torrents)).insertionSort fun a b => rankKey zero a.2 ≤ rankKey zero b.2, ?_, ?_, ?_⟩
    · exact List.perm_insertionSort _ _
    · exact List.pairwise_insertionSort _ _
    · rw [reclaimPreview, ← previewEntries_snd]
      symm
      exact List.map_insertionSort _ _ _ _ fun a _ b _ => Iff.rfl
  have hranks : ∀ pair ∈ pairs, pair.2.remote = pair.1.ref ∧
      Ranks zero torrents pair.1 (rankKey zero pair.2) := by
    intro pair hpair
    obtain ⟨entry, -, hmade⟩ := List.mem_filterMap.mp (hperm.mem_iff.mp hpair)
    obtain ⟨rfl, hremote, hrank⟩ := previewEntry_ranks hmade
    exact ⟨hremote, hrank⟩
  refine ⟨pairs.map fun pair => (pair.1, rankKey zero pair.2), ?_, ?_, ?_, ?_⟩
  · rw [reclaimActions, hpreview, List.map_map, List.map_map]
    exact List.map_congr_left fun pair hpair => (hranks pair hpair).1
  · rw [List.map_map]
    exact (hperm.map Prod.fst).subperm.trans previewEntries_fst.subperm
  · intro shown hshown
    obtain ⟨pair, hpair, rfl⟩ := List.mem_map.mp hshown
    exact (hranks pair hpair).2
  · rw [List.pairwise_map]
    exact hsorted

-- Every file that is proposed for deletion is one that the library has: at the
-- path its own placement renders to, under the same title, and as the same file
-- of the title where that path reads back as it was written. Proposals do not
-- depend on the order of anything they are made from, and come in the order of their
-- private flag, their ratio and their age.
theorem reclaim_installed {library : Entries} {scanned : List InstalledFile}
    (hscan : scanSchemaFiles library = .ok scanned) (hdisk : onDisk.Perm scanned) :
    (∀ remote ∈ reclaimActions goalRatio zero listings rootKinds titleIndex onDisk torrents,
      ∃ entry ∈ listings, entry.ref = remote ∧ entry.nlink ≤ 1 ∧ ∃ id placement path,
        classifyRemote rootKinds entry = .ok (id, placement) ∧
        renderPlacement placement = .ok path ∧
        (∃ file ∈ onDisk, file.path = path ∧ file.titleId = id ∧
          (Legible placement = true → file.fileKey = placement.fileKey)) ∧
        (∃ row ∈ titleIndex, row.path = path ∨
          (row.path = [] ∧ row.titleId = id ∧ placement.fileKey = .Whole)) ∧
        ∀ t ∈ torrents, t.matchesRemote remote = true → t.blocksDelete goalRatio = false) ∧
    (∀ listings' titleIndex' onDisk' torrents', listings.Perm listings' →
      titleIndex.Perm titleIndex' → onDisk.Perm onDisk' → torrents.Perm torrents' →
      (reclaimActions goalRatio zero listings rootKinds titleIndex onDisk torrents).Perm
        (reclaimActions goalRatio zero listings' rootKinds titleIndex' onDisk' torrents')) ∧
    ∃ ranked : List (RemoteEntry × (Bool ×ₗ R ×ₗ Int)),
      reclaimActions goalRatio zero listings rootKinds titleIndex onDisk torrents =
        ranked.map (fun shown => shown.1.ref) ∧
      (ranked.map Prod.fst).Subperm listings ∧
      (∀ shown ∈ ranked, Ranks zero torrents shown.1 shown.2) ∧
      ranked.Pairwise fun a b => a.2 ≤ b.2 := by
  refine ⟨?_, ?_, reclaimActions_ranked⟩
  · intro remote hremote
    obtain ⟨shown, hshown, rfl⟩ := List.mem_map.mp hremote
    have hmem := (List.perm_insertionSort _ _).mem_iff.mp hshown
    obtain ⟨candidate, hcandidate, hpreview⟩ := List.mem_filterMap.mp hmem
    obtain ⟨entry, hentry, hproved⟩ := List.mem_filterMap.mp hcandidate
    obtain ⟨hlink, ⟨href, -⟩, id, placement, path, hclass, hrender, ⟨file, hfile, hpath⟩, row, hrow,
      hindex⟩ := provedEntry_some hproved
    obtain ⟨rfl, hfree⟩ := previewOne_some hpreview
    rw [withRank_remote]
    refine ⟨entry, hentry, href.symm, hlink, id, placement, path, hclass, hrender,
      ⟨file, hfile, hpath, ?_⟩, ⟨row, hrow, ?_⟩, hfree⟩
    · obtain ⟨found, hparse, hkey⟩ := scanSchemaFiles_scanned hscan file (hdisk.mem_iff.mp hfile)
      rw [hpath] at hparse
      have htitle := reparse_title hclass hrender hparse
      refine ⟨htitle, fun hlegible => ?_⟩
      have hback := (canonical_identity hclass hrender).mpr hlegible
      rw [hparse] at hback
      cases hback
      exact hkey
    · simp only [indexes, TitleIndexEntry.pathMissing, Bool.or_eq_true, Bool.and_eq_true,
        decide_eq_true_eq, and_assoc] at hindex
      exact hindex
  · intro listings' titleIndex' onDisk' torrents' hl hi hd ht
    exact (reclaimPreview_perm hl hi hd ht).map _

end Preview

namespace Sample

-- A series whose own title holds an episode tag: the remote file is its first
-- episode, the library path of that file reads as its fifth.
def show_ : FileName := ⟨"Show.S01E05.(2000)".toList, by constructor <;> decide⟩
def season : FileName := ⟨"Season.01".toList, by constructor <;> decide⟩
def episode : FileName := ⟨"Show.S01E05.(2000).S01E01.mkv".toList, by constructor <;> decide⟩

def info : FileInfo := { len := 10, mtime := 0, nlink := 1 }

def library : Entries :=
  .Dir series true (.Dir show_ true (.Dir season true (.File episode info .Nil) .Nil) .Nil) .Nil

def path : Text := "series/Show.S01E05.(2000)/Season.01/Show.S01E05.(2000).S01E01.mkv".toList

def entry : RemoteEntry where
  ref := { rootId := "tv", relPath := "Show.S01E05.(2000)/S01E01.mkv", valid := by decide }
  len := 10
  mtime := 0
  nlink := 1

def titleId : @TitleId UnicodeTables.ascii :=
  @TitleId.mk UnicodeTables.ascii .Series .Key "shows01e05.2000" PathSchema.Sample.series_pair
    (by decide) (by simp)

def placement : Placement := .Episode "Show.S01E05" 2000 1 1 none none "mkv"

def onDisk : List (@InstalledFile UnicodeTables.ascii) :=
  [@InstalledFile.mk UnicodeTables.ascii titleId (.Episode 1 5) path]

def titleIndex : List (@TitleIndexEntry UnicodeTables.ascii) :=
  [@TitleIndexEntry.mk UnicodeTables.ascii titleId path [] []]

theorem scanned : @scanSchemaFiles UnicodeTables.ascii library = .ok onDisk := by decide +kernel

theorem classified : @classifyRemote UnicodeTables.ascii (fun _ => some .Series) entry =
    .ok (titleId, placement) := by decide +kernel

theorem proposed : @reclaimActions UnicodeTables.ascii Nat _ 1 0 [entry] (fun _ => some .Series)
    titleIndex onDisk [] = [entry.ref] := by decide +kernel

end Sample

theorem reclaim_installed_episode :
    let := UnicodeTables.ascii
    ∃ file ∈ Sample.onDisk, file.path = Sample.path ∧ file.titleId = Sample.titleId := by
  intro _
  have hsafe := @reclaim_installed UnicodeTables.ascii Nat _ 1 0 (fun _ => some .Series)
    [Sample.entry] Sample.titleIndex Sample.onDisk [] Sample.library Sample.onDisk Sample.scanned
    (.refl _)
  obtain ⟨entry, hentry, -, -, id, placement, path, hclass, hrender, ⟨file, hfile, hpath, hid, -⟩,
    -⟩ := hsafe.1 Sample.entry.ref (by rw [Sample.proposed]; exact List.mem_singleton_self _)
  obtain rfl : entry = Sample.entry := by simpa using hentry
  rw [Sample.classified] at hclass
  cases hclass
  have hrendered : renderPlacement Sample.placement = .ok Sample.path := by decide +kernel
  rw [hrendered] at hrender
  cases hrender
  exact ⟨file, hfile, hpath, hid⟩

-- The proposal stands on a file that counts as another episode.
theorem reclaim_other_file :
    let := UnicodeTables.ascii
    ¬ ∀ (library : Entries) (onDisk : List InstalledFile) (listings : List RemoteEntry)
      (rootKinds : RootKinds) (titleIndex : List TitleIndexEntry),
      scanSchemaFiles library = .ok onDisk →
      ∀ remote ∈ reclaimActions (1 : Nat) 0 listings rootKinds titleIndex onDisk [],
        ∃ entry ∈ listings, entry.ref = remote ∧ ∃ id placement,
          classifyRemote rootKinds entry = .ok (id, placement) ∧
          ∃ file ∈ onDisk, file.titleId = id ∧ file.fileKey = placement.fileKey := by
  intro _ h
  obtain ⟨entry, hentry, -, id, placement, hclass, file, hfile, -, hkey⟩ :=
    h Sample.library Sample.onDisk [Sample.entry] (fun _ => some .Series) Sample.titleIndex
      Sample.scanned Sample.entry.ref (by rw [Sample.proposed]; exact List.mem_singleton_self _)
  obtain rfl : entry = Sample.entry := by simpa using hentry
  rw [Sample.classified] at hclass
  cases hclass
  obtain rfl := List.mem_singleton.mp hfile
  revert hkey
  decide

end Mediaops.Reclaim
