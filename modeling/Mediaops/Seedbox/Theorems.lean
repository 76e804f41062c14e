import Mediaops.Seedbox
import Mediaops.Reclaim.Theorems

namespace Mediaops.Seedbox

open Walker Reclaim Checks

-- What the walker lists, the allowlist finds again.

theorem mem_names_of_lookup {entries : Entries} {wanted : Text} {found : Found}
    (h : entries.lookup wanted = some found) : wanted ∈ entries.names := by
  induction entries with
  | Nil => cases h
  | File name info rest ih | Symlink name rest ih | Other name rest ih =>
      unfold Entries.lookup at h
      split at h
      · next heq => exact heq ▸ List.mem_cons_self
      · exact List.mem_cons_of_mem _ (ih h)
  | Dir name readable children rest _ ih =>
      unfold Entries.lookup at h
      split at h
      · next heq => exact heq ▸ List.mem_cons_self
      · exact List.mem_cons_of_mem _ (ih h)

-- A file at the end of a chain of directories.
def Reaches (entries : Entries) (names : List FileName) (info : FileInfo) : Prop :=
  ∃ first tail found, names = first :: tail ∧ entries.lookup first.1 = some found ∧
    found ≠ .Symlink ∧ ∀ rel path, follow rel path found (tail.map fun name => .Normal name.1) =
      .ok ((tail.map Subtype.val).foldl Path.join path, .File info)

theorem Reaches.later {entries rest : Entries} {name : FileName} {names : List FileName}
    {info : FileInfo} (h : Reaches rest names info) (hfresh : name.1 ∉ rest.names)
    (hskip : ∀ wanted, name.1 ≠ wanted → entries.lookup wanted = rest.lookup wanted) :
    Reaches entries names info := by
  obtain ⟨first, tail, found, rfl, hlookup, hlink, hfollow⟩ := h
  have hne : name.1 ≠ first.1 := by
    intro heq
    exact hfresh (heq ▸ mem_names_of_lookup hlookup)
  exact ⟨first, tail, found, rfl, (hskip _ hne).trans hlookup, hlink, hfollow⟩

structure Listed (root : Root) (rel : List FileName) (entries : Entries) (entry : RemoteEntry) :
    Prop where
  rootId : entry.ref.rootId = root.id
  found : ∃ names, entry.ref.relPath = relText (rel ++ names) ∧
    isTorrentSkip (root.path ((rel ++ names).map Subtype.val)) = false ∧
    Reaches entries names { len := entry.len, mtime := entry.mtime, nlink := entry.nlink }

theorem Listed.later {root : Root} {rel : List FileName} {entries rest : Entries}
    {entry : RemoteEntry} {name : FileName} (h : Listed root rel rest entry)
    (hfresh : name.1 ∉ rest.names)
    (hskip : ∀ wanted, name.1 ≠ wanted → entries.lookup wanted = rest.lookup wanted) :
    Listed root rel entries entry := by
  obtain ⟨names, hrel, htorrent, hreaches⟩ := h.found
  exact ⟨h.rootId, names, hrel, htorrent, hreaches.later hfresh hskip⟩

theorem walkDir_listed {root : Root} {entries : Entries} :
    ∀ {rel : List FileName} {out : List RemoteEntry}, entries.Distinct →
      walkDir root rel entries = .ok out → ∀ entry ∈ out, Listed root rel entries entry := by
  induction entries with
  | Nil =>
      intro rel out _ h entry hentry
      cases h
      cases hentry
  | File name info rest ih =>
      intro rel out hd h entry hentry
      have hskip : ∀ wanted, name.1 ≠ wanted →
          (Entries.File name info rest).lookup wanted = rest.lookup wanted :=
        fun wanted hne => if_neg hne
      obtain ⟨later, hlater, h⟩ := bind_ok h
      split at h
      · cases h
        exact (ih hd.2 hlater entry hentry).later hd.1 hskip
      next htorrent =>
        cases h
        rcases List.mem_cons.mp hentry with rfl | hentry
        · refine ⟨rfl, [name], rfl, by simpa using htorrent, name, [], .File info, rfl,
            if_pos rfl, by simp, ?_⟩
          intro _ _
          rfl
        · exact (ih hd.2 hlater entry hentry).later hd.1 hskip
  | Dir name readable children rest ihc ih =>
      intro rel out hd h entry hentry
      have hskip : ∀ wanted, name.1 ≠ wanted →
          (Entries.Dir name readable children rest).lookup wanted = rest.lookup wanted :=
        fun wanted hne => if_neg hne
      obtain ⟨here, hhere, h⟩ := bind_ok h
      obtain ⟨later, hlater, h⟩ := bind_ok h
      cases h
      rcases List.mem_append.mp hentry with hentry | hentry
      · split at hhere
        · cases hhere
          cases hentry
        · split at hhere
          · have hchild := ihc hd.2.1 hhere entry hentry
            obtain ⟨names, hrel, htorrent, first, tail, found, rfl, hlookup, hlink, hfollow⟩ :=
              hchild.found
            refine ⟨hchild.rootId, name :: first :: tail, by simpa using hrel,
              by simpa using htorrent, name, first :: tail, .Dir readable children, rfl,
              if_pos rfl, by simp, ?_⟩
            intro text path
            have hstep := hfollow text (Path.join path first.1)
            cases found with
            | Symlink => exact absurd rfl hlink
            | File _ | Dir _ _ | Other =>
                simp only [List.map_cons, follow, hlookup, List.foldl_cons]
                exact hstep
          · cases hhere
      · exact (ih hd.2.2 hlater entry hentry).later hd.1 hskip
  | Symlink name rest ih =>
      intro rel out hd h entry hentry
      exact (ih hd.2 h entry hentry).later hd.1 fun wanted hne => if_neg hne
  | Other name rest ih =>
      intro rel out hd h entry hentry
      exact (ih hd.2 h entry hentry).later hd.1 fun wanted hne => if_neg hne

theorem listRoots_listed {roots : List Root} :
    ∀ {out : List RemoteEntry}, listRoots roots = .ok out → ∀ entry ∈ out,
      ∃ root ∈ roots, Listed root [] root.entries entry := by
  induction roots with
  | nil =>
      intro out h entry hentry
      cases h
      cases hentry
  | cons root rest ih =>
      intro out h entry hentry
      obtain ⟨here, hhere, h⟩ := bind_ok h
      obtain ⟨later, hlater, h⟩ := bind_ok h
      cases h
      rcases List.mem_append.mp hentry with hentry | hentry
      · split at hhere
        · exact ⟨root, List.mem_cons_self, walkDir_listed root.distinct hhere entry hentry⟩
        · cases hhere
      · obtain ⟨found, hfound, hlisted⟩ := ih hlater entry hentry
        exact ⟨found, List.mem_cons_of_mem _ hfound, hlisted⟩

theorem find_root {allowlist : Allowlist} {root : Root} (h : root ∈ allowlist.roots) :
    allowlist.find root.id = some root := by
  unfold Allowlist.find
  cases hfind : allowlist.roots.find? fun other => other.id = root.id with
  | none =>
      have hnone := List.find?_eq_none.mp hfind root h
      simp at hnone
  | some other =>
      have hid : other.id = root.id := by simpa using List.find?_some hfind
      rw [List.inj_on_of_nodup_map allowlist.ids (List.mem_of_find?_eq_some hfind) h hid]

theorem list_located {allowlist : Allowlist} {entries : List RemoteEntry}
    (h : allowlist.list = .ok entries) {entry : RemoteEntry} (hentry : entry ∈ entries) :
    ∃ path, allowlist.locate entry.ref = .ok (path,
      .File { len := entry.len, mtime := entry.mtime, nlink := entry.nlink }) := by
  obtain ⟨out, hout, h⟩ := bind_ok h
  cases h
  obtain ⟨root, hroot, hlisted⟩ :=
    listRoots_listed hout entry ((List.perm_insertionSort _ _).mem_iff.mp hentry)
  obtain ⟨names, hrel, htorrent, first, tail, found, rfl, hlookup, hlink, hfollow⟩ :=
    hlisted.found
  have hwalk : follow entry.ref.relPath root.canonical (.Dir root.readable root.entries)
      (Path.components entry.ref.relPath) =
        .ok (root.path ((first :: tail).map Subtype.val),
          .File { len := entry.len, mtime := entry.mtime, nlink := entry.nlink }) := by
    have hcomps : Path.components entry.ref.relPath =
        (first :: tail).map fun name => .Normal name.1 := by
      rw [hrel, List.nil_append, components_relText]
    have hstep := hfollow entry.ref.relPath (Path.join root.canonical first.1)
    rw [hcomps]
    cases found with
    | Symlink => exact absurd rfl hlink
    | File _ | Dir _ _ | Other =>
        simp only [List.map_cons, follow, hlookup]
        exact hstep
  refine ⟨root.path ((first :: tail).map Subtype.val), ?_⟩
  unfold Allowlist.locate
  rw [hlisted.rootId, find_root hroot]
  simp only [hwalk, bind, Except.bind]
  rw [List.nil_append] at htorrent
  rw [htorrent]
  rfl

-- Only the components of a reference decide where it leads.
theorem locate_congr {allowlist : Allowlist} {a b : RemoteRef} (h : a.key = b.key)
    {found : Text × Found} (hb : allowlist.locate b = .ok found) :
    allowlist.locate a = .ok found := by
  have hfollow : ∀ (comps : List Component) (path : Text) (at_ : Found) (result : Text × Found),
      follow b.relPath path at_ comps = .ok result → follow a.relPath path at_ comps = .ok result := by
    intro comps
    induction comps with
    | nil => exact fun _ _ _ h => h
    | cons comp comps ih =>
        intro path at_ result h
        cases comp with
        | Normal name =>
            cases at_ with
            | Dir readable children =>
                unfold follow at h ⊢
                split at h
                · cases h
                · cases h
                · exact ih _ _ _ h
            | File _ | Symlink | Other => cases h
        | RootDir | CurDir | ParentDir => cases at_ <;> cases h
  obtain ⟨hid, hcomps⟩ := Prod.mk.inj h
  unfold Allowlist.locate at hb ⊢
  rw [hid, hcomps]
  split at hb
  · cases hb
  · obtain ⟨⟨path, at_⟩, hwalk, hb⟩ := bind_ok hb
    simp only [hfollow _ _ _ _ hwalk, bind, Except.bind]
    exact hb

section Guard

variable [UnicodeTables] {R : Type} [LinearOrder R] {goalRatio zero : R} {allowlist : Allowlist}
  {entries : List RemoteEntry} {torrents : List (GuardPreviewItem R)} {entry : RemoteEntry}
  {path : Text}

omit [LinearOrder R] in
theorem coversEntry_eq (h : allowlist.absolute entry.ref = .ok path) (torrent : GuardPreviewItem R) :
    coversEntry allowlist torrent entry = torrent.coversPath path := by
  simp only [coversEntry, h]

-- The guard refuses what some blocking torrent refers to or covers, by either path.
theorem deleteRemoteLocked_skipped (hlink : entry.nlink ≤ 1)
    (hpath : allowlist.absolute entry.ref = .ok path)
    (hfound : ∃ listed, allowlist.entry entry.ref = .ok listed ∧ listed.nlink = entry.nlink) :
    deleteRemoteLocked goalRatio allowlist entry.ref torrents = .ok .SkippedSeeding ↔
      ∃ t ∈ torrents, t.blocksDelete goalRatio = true ∧
        (t.refersTo entry.ref = true ∨ t.coversPath path = true ∨
          t.coversPath entry.ref.relPath = true) := by
  obtain ⟨listed, hlisted, hsame⟩ := hfound
  have hone : ¬1 < listed.nlink := by omega
  unfold deleteRemoteLocked
  simp only [hpath, hlisted, bind, Except.bind, if_neg hone]
  constructor
  · intro h
    split at h
    · next hany =>
        obtain ⟨t, ht, hguard⟩ := List.any_eq_true.mp hany
        simp only [GuardPreviewItem.guards, Option.any_some, Bool.and_eq_true, Bool.or_eq_true,
          or_assoc] at hguard
        exact ⟨t, ht, hguard.2, hguard.1⟩
    · cases h
  · rintro ⟨t, ht, hblocks, hguard⟩
    rw [if_pos]
    · rfl
    · refine List.any_eq_true.mpr ⟨t, ht, ?_⟩
      simp only [GuardPreviewItem.guards, Option.any_some, Bool.and_eq_true, Bool.or_eq_true,
        or_assoc]
      exact ⟨hguard, hblocks⟩

-- The preview leaves out what some blocking torrent matches without the absolute path.
theorem reclaimPreview_omits {rootKinds : RootKinds} {titleIndex : List TitleIndexEntry}
    {onDisk : List InstalledFile} (hentry : entry ∈ entries)
    (hproved : (provedEntry rootKinds titleIndex onDisk entry :
      Option (ReclaimCandidate R)).isSome) :
    entry.ref ∉ reclaimActions goalRatio zero entries rootKinds titleIndex onDisk torrents ↔
      ∃ t ∈ torrents, t.blocksDelete goalRatio = true ∧ t.matchesRemote entry.ref = true := by
  constructor
  · intro hout
    by_contra hnone
    apply hout
    obtain ⟨candidate, hcandidate⟩ := Option.isSome_iff_exists.mp hproved
    have href := (provedEntry_some hcandidate).2.1.1
    have hfree : ((torrents.filter fun t => t.matchesRemote candidate.remote).any fun t =>
        t.blocksDelete goalRatio) = false := by
      rw [List.any_eq_false]
      intro t ht hblocks
      obtain ⟨ht, hmatch⟩ := List.mem_filter.mp ht
      exact hnone ⟨t, ht, hblocks, href ▸ hmatch⟩
    set covering := torrents.filter fun t => t.matchesRemote candidate.remote with hcovering
    have hshown : previewOne goalRatio torrents candidate = some (withRank candidate covering) := by
      unfold previewOne
      dsimp only
      rw [← hcovering, hfree]
      rfl
    refine List.mem_map.mpr ⟨withRank candidate covering, ?_, ?_⟩
    · refine (List.perm_insertionSort _ _).mem_iff.mpr (List.mem_filterMap.mpr
        ⟨candidate, List.mem_filterMap.mpr ⟨entry, hentry, hcandidate⟩, hshown⟩)
    · rw [withRank_remote, href]
  · rintro ⟨t, ht, hblocks, hmatch⟩ hin
    obtain ⟨shown, hshown, href⟩ := List.mem_map.mp hin
    have hmem := (List.perm_insertionSort _ _).mem_iff.mp hshown
    obtain ⟨candidate, -, hpreview⟩ := List.mem_filterMap.mp hmem
    obtain ⟨rfl, hfree⟩ := previewOne_some hpreview
    rw [← href, withRank_remote] at hmatch
    rw [hfree t ht hmatch] at hblocks
    cases hblocks

-- A torrent without a reference of its own covers this listed file first.
def CoversFirst (allowlist : Allowlist) (entries : List RemoteEntry) (entry : RemoteEntry)
    (torrent : GuardPreviewItem R) : Prop :=
  torrent.remote = none ∧ ∃ before first after, entries = before ++ first :: after ∧
    first.ref.key = entry.ref.key ∧ coversEntry allowlist torrent first = true ∧
    ∀ other ∈ before, coversEntry allowlist torrent other = false

omit [LinearOrder R] in
theorem attachGuardRemote_refersTo (torrent : GuardPreviewItem R) :
    (attachGuardRemote allowlist entries torrent).refersTo entry.ref = true ↔
      torrent.refersTo entry.ref = true ∨ CoversFirst allowlist entries entry torrent := by
  unfold attachGuardRemote CoversFirst
  cases hremote : torrent.remote with
  | some own => simp [GuardPreviewItem.refersTo, hremote]
  | none =>
      simp only [Option.isSome_none, Bool.false_eq_true, if_false]
      cases hfind : entries.find? (coversEntry allowlist torrent) with
      | none =>
          simp only [GuardPreviewItem.refersTo, hremote, Option.any_none, Bool.false_eq_true,
            false_or, false_iff]
          rintro ⟨-, before, first, after, rfl, -, hcovers, -⟩
          have hnone := List.find?_eq_none.mp hfind first (by simp)
          exact hnone hcovers
      | some found =>
          simp only [GuardPreviewItem.refersTo, hremote, Option.any_some, Option.any_none,
            decide_eq_true_eq, Bool.false_eq_true, false_or, true_and]
          constructor
          · intro hkey
            obtain ⟨hcovers, before, after, rfl, hbefore⟩ := List.find?_eq_some_iff_append.mp hfind
            exact ⟨before, found, after, rfl, hkey, hcovers, fun other hother => by
              simpa using hbefore other hother⟩
          · rintro ⟨before, first, after, rfl, hkey, hcovers, hbefore⟩
            have hsame := List.find?_eq_some_iff_append.mpr
              ⟨hcovers, before, after, rfl, fun other hother => by simp [hbefore other hother]⟩
            rw [hfind] at hsame
            cases hsame
            exact hkey

omit [LinearOrder R] in
theorem attachGuardRemote_keeps (torrent : GuardPreviewItem R) :
    ∃ remote, attachGuardRemote allowlist entries torrent = { torrent with remote } := by
  unfold attachGuardRemote
  split
  · exact ⟨torrent.remote, rfl⟩
  · split
    · exact ⟨_, rfl⟩
    · exact ⟨torrent.remote, rfl⟩

theorem attachGuardRemote_blocks (torrent : GuardPreviewItem R) :
    (attachGuardRemote allowlist entries torrent).blocksDelete goalRatio =
      torrent.blocksDelete goalRatio := by
  have hkeeps : ∃ remote, attachGuardRemote allowlist entries torrent = { torrent with remote } :=
    attachGuardRemote_keeps torrent
  obtain ⟨remote, h⟩ := hkeeps
  rw [h]
  rfl

omit [LinearOrder R] in
theorem attachGuardRemote_covers (torrent : GuardPreviewItem R) (file : Text) :
    (attachGuardRemote allowlist entries torrent).coversPath file = torrent.coversPath file := by
  have hkeeps : ∃ remote, attachGuardRemote allowlist entries torrent = { torrent with remote } :=
    attachGuardRemote_keeps torrent
  obtain ⟨remote, h⟩ := hkeeps
  rw [h]
  rfl

omit [LinearOrder R] in
theorem CoversFirst.covers {torrent : GuardPreviewItem R}
    (hpath : allowlist.absolute entry.ref = .ok path)
    (h : CoversFirst allowlist entries entry torrent) : torrent.coversPath path = true := by
  obtain ⟨-, before, first, after, -, hkey, hcovers, -⟩ := h
  have hfirst : allowlist.absolute first.ref = .ok path := by
    unfold Allowlist.absolute at hpath ⊢
    cases hlocate : allowlist.locate entry.ref with
    | error e => rw [hlocate] at hpath; cases hpath
    | ok found => rw [hlocate] at hpath; rw [locate_congr hkey hlocate]; exact hpath
  rwa [coversEntry_eq hfirst] at hcovers

-- The preview and the guard agree on a listed file exactly when its absolute path
-- is not the only thing that tells of a blocking torrent: some blocking torrent
-- refers to the file, covers its relative path, or covers it as the first listed
-- file it covers.
theorem preview_guard_agree {rootKinds : RootKinds} {titleIndex : List TitleIndexEntry}
    {onDisk : List InstalledFile} (hlist : allowlist.list = .ok entries) (hentry : entry ∈ entries)
    (hproved : (provedEntry rootKinds titleIndex onDisk entry :
      Option (ReclaimCandidate R)).isSome) :
    (entry.ref ∉ reclaimActions goalRatio zero entries rootKinds titleIndex onDisk
        (attachGuardRemotes allowlist torrents) ↔
      deleteRemoteLocked goalRatio allowlist entry.ref torrents = .ok .SkippedSeeding) ↔
    ((∃ t ∈ torrents, t.blocksDelete goalRatio = true ∧
        coversEntry allowlist t entry = true) →
      ∃ t ∈ torrents, t.blocksDelete goalRatio = true ∧
        (t.refersTo entry.ref = true ∨ t.coversPath entry.ref.relPath = true ∨
          CoversFirst allowlist entries entry t)) := by
  obtain ⟨path, hlocate⟩ := list_located hlist hentry
  have hpath : allowlist.absolute entry.ref = .ok path := by
    unfold Allowlist.absolute
    rw [hlocate]
    rfl
  have hfound : ∃ listed, allowlist.entry entry.ref = .ok listed ∧ listed.nlink = entry.nlink := by
    unfold Allowlist.entry
    rw [hlocate]
    exact ⟨_, rfl, rfl⟩
  have hlink : entry.nlink ≤ 1 := by
    obtain ⟨candidate, hcandidate⟩ := Option.isSome_iff_exists.mp hproved
    exact (provedEntry_some hcandidate).1
  rw [reclaimPreview_omits hentry hproved, deleteRemoteLocked_skipped hlink hpath hfound]
  have hattached : (∃ t ∈ attachGuardRemotes allowlist torrents, t.blocksDelete goalRatio = true ∧
      t.matchesRemote entry.ref = true) ↔ ∃ t ∈ torrents, t.blocksDelete goalRatio = true ∧
        (t.refersTo entry.ref = true ∨ t.coversPath entry.ref.relPath = true ∨
          CoversFirst allowlist entries entry t) := by
    simp only [attachGuardRemotes, hlist, List.mem_map, exists_exists_and_eq_and,
      GuardPreviewItem.matchesRemote, GuardPreviewItem.guards, Option.any_none, Bool.or_false,
      Bool.or_eq_true, attachGuardRemote_refersTo, attachGuardRemote_blocks,
      attachGuardRemote_covers]
    refine exists_congr fun t => and_congr_right fun _ => and_congr_right fun _ => ?_
    exact ⟨fun h => by tauto, fun h => by tauto⟩
  rw [hattached]
  simp only [coversEntry_eq hpath]
  constructor
  · rintro hagree ⟨t, ht, hblocks, hcovers⟩
    exact hagree.mpr ⟨t, ht, hblocks, .inr (.inl hcovers)⟩
  · intro hcond
    constructor
    · rintro ⟨t, ht, hblocks, hrefers | hrel | hfirst⟩
      · exact ⟨t, ht, hblocks, .inl hrefers⟩
      · exact ⟨t, ht, hblocks, .inr (.inr hrel)⟩
      · exact ⟨t, ht, hblocks, .inr (.inl (hfirst.covers hpath))⟩
    · rintro ⟨t, ht, hblocks, hrefers | hcovers | hrel⟩
      · exact ⟨t, ht, hblocks, .inl hrefers⟩
      · exact hcond ⟨t, ht, hblocks, hcovers⟩
      · exact ⟨t, ht, hblocks, .inr (.inl hrel)⟩

end Guard

namespace Sample

-- A seeding torrent of a directory with two episodes.
def show_ : FileName := ⟨"Show.(2000)".toList, by constructor <;> decide⟩
def first : FileName := ⟨"Show.S01E01.mkv".toList, by constructor <;> decide⟩
def second : FileName := ⟨"Show.S01E02.mkv".toList, by constructor <;> decide⟩

def info : FileInfo := { len := 10, mtime := 0, nlink := 1 }

def tree : Entries := .Dir show_ true (.File first info (.File second info .Nil)) .Nil

def allowlist : Allowlist where
  roots := [{
    id := "tv", canonical := "/data/tv", readable := true, entries := tree
    named := by decide, absolute := by decide
    distinct := by simp only [tree, Entries.Distinct, Entries.names]; decide }]
  ids := by decide

def entryOf (rel : Text) (valid : RemoteRef.check "tv" rel = .ok ()) : RemoteEntry where
  ref := { rootId := "tv", relPath := rel, valid }
  len := 10
  mtime := 0
  nlink := 1

def firstEntry : RemoteEntry := entryOf "Show.(2000)/Show.S01E01.mkv" (by decide)
def secondEntry : RemoteEntry := entryOf "Show.(2000)/Show.S01E02.mkv" (by decide)

def torrent : GuardPreviewItem Nat where
  hash := "abc"
  state := "uploading"
  ratio := 2
  isPrivate := false
  contentPath := "/data/tv/Show.(2000)"
  savePath := "/data/tv"
  remote := none

def titleId : @TitleId UnicodeTables.ascii := PathSchema.Sample.series

def path : Text := "series/Show.(2000)/Season.01/Show.(2000).S01E02.mkv".toList

def onDisk : List (@InstalledFile UnicodeTables.ascii) :=
  [@InstalledFile.mk UnicodeTables.ascii titleId (.Episode 1 2) path]

def titleIndex : List (@TitleIndexEntry UnicodeTables.ascii) :=
  [@TitleIndexEntry.mk UnicodeTables.ascii titleId path [] []]

theorem listed : allowlist.list = .ok [firstEntry, secondEntry] := by decide +kernel

theorem proved : (@provedEntry UnicodeTables.ascii Nat (fun _ => some .Series) titleIndex onDisk
    secondEntry).isSome = true := by decide +kernel

theorem proposed : secondEntry.ref ∈ @reclaimActions UnicodeTables.ascii Nat _ 1 0
    [firstEntry, secondEntry] (fun _ => some .Series) titleIndex onDisk
    (@attachGuardRemotes UnicodeTables.ascii Nat allowlist [torrent]) := by decide +kernel

theorem skipped : @deleteRemoteLocked UnicodeTables.ascii Nat _ 1 allowlist secondEntry.ref
    [torrent] = .ok .SkippedSeeding := by decide +kernel

end Sample

theorem preview_guard_agree_second :
    let := UnicodeTables.ascii
    (Sample.secondEntry.ref ∉ reclaimActions 1 0 [Sample.firstEntry, Sample.secondEntry]
        (fun _ => some .Series) Sample.titleIndex Sample.onDisk
        (attachGuardRemotes Sample.allowlist [Sample.torrent]) ↔
      deleteRemoteLocked 1 Sample.allowlist Sample.secondEntry.ref [Sample.torrent] =
        .ok .SkippedSeeding) ↔
    ((∃ t ∈ [Sample.torrent], t.blocksDelete 1 = true ∧
        coversEntry Sample.allowlist t Sample.secondEntry = true) →
      ∃ t ∈ [Sample.torrent], t.blocksDelete 1 = true ∧
        (t.refersTo Sample.secondEntry.ref = true ∨
          t.coversPath Sample.secondEntry.ref.relPath = true ∨
          CoversFirst Sample.allowlist [Sample.firstEntry, Sample.secondEntry] Sample.secondEntry
            t)) := by
  intro _
  exact preview_guard_agree Sample.listed (by simp) Sample.proved

-- The reference goes to the first episode; the second is proposed and then refused.
theorem preview_misses_second :
    let := UnicodeTables.ascii
    ¬ ∀ (allowlist : Allowlist) (entries : List RemoteEntry) (entry : RemoteEntry)
      (rootKinds : RootKinds) (titleIndex : List TitleIndexEntry) (onDisk : List InstalledFile)
      (torrents : List (GuardPreviewItem Nat)), allowlist.list = .ok entries → entry ∈ entries →
      (provedEntry rootKinds titleIndex onDisk entry : Option (ReclaimCandidate Nat)).isSome →
      (entry.ref ∉ reclaimActions 1 0 entries rootKinds titleIndex onDisk
          (attachGuardRemotes allowlist torrents) ↔
        deleteRemoteLocked 1 allowlist entry.ref torrents = .ok .SkippedSeeding) := by
  intro _ h
  have hagree := h Sample.allowlist _ Sample.secondEntry _ Sample.titleIndex Sample.onDisk
    [Sample.torrent] Sample.listed (by simp) Sample.proved
  exact hagree.mpr Sample.skipped Sample.proposed

end Mediaops.Seedbox
