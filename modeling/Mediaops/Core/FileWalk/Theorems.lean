import Mediaops.Core.FileWalk.Lookup

namespace Mediaops.FileWalk

-- What the listing of an allowlist, the lookup of a reference and the resolution of a
-- path have to do with each other.

open FileTree Checks

section Agreement

variable {host : Host} {allowlist : Allowlist} {path : List OsStr}

-- Below a directory `incomplete` of a directory `torrents`.
def UnderIncomplete (path : List OsStr) : Prop :=
  ∃ front back, path = front ++ torrents :: incomplete :: back ∧ back ≠ []

theorem UnderIncomplete.adjoins (h : UnderIncomplete path) : Adjoins path := by
  obtain ⟨front, back, hpath, -⟩ := h
  exact ⟨front, [], back, hpath, fun _ hname => absurd hname List.not_mem_nil⟩

-- A regular file below a root, by way of directories and no symlink.
def Reachable (host : Host) (allowlist : Allowlist) (root : Root) (names : List OsStr)
    (info : FileInfo) : Prop :=
  root ∈ allowlist.roots ∧ host.fs.at (root.canonical ++ names) = some (.File info)

def IsListed (entries : List RemoteEntry) (remote : RemoteRef) : Prop :=
  ∃ entry ∈ entries, remote.Same entry.ref

structure Agree (host : Host) (allowlist : Allowlist) (entries : List RemoteEntry) : Prop where
  sorted : entries.Pairwise fun a b => sortKey a < sortKey b
  once : (entries.map fun entry => Allowlist.absolute host allowlist entry.ref).Nodup
  exactly : ∀ entry, entry ∈ entries ↔ ∃ root names info,
    Reachable host allowlist root names info ∧ ¬UnderIncomplete (root.canonical ++ names) ∧
      entry = root.entry names info
  entries_found : ∀ remote, (∃ entry, Allowlist.entry host allowlist remote = .ok entry) ↔
    IsListed entries remote
  opens : ∀ remote, (∃ info, Allowlist.openFile host allowlist remote = .ok info) ↔
    IsListed entries remote
  unlinks : ∀ remote, (∃ path, Allowlist.unlink host allowlist remote = .ok path) ↔
    IsListed entries remote
  same : ∀ remote entry, Allowlist.entry host allowlist remote = .ok entry →
    ∃ listed ∈ entries, entry.Same listed

-- No reachable file has both names side by side as text, unless it is below them.
def Plainly (host : Host) (allowlist : Allowlist) : Prop :=
  ∀ root names info, Reachable host allowlist root names info →
    Adjoins (root.canonical ++ names) → UnderIncomplete (root.canonical ++ names)

theorem absolute_listed (h : Admitted host allowlist) {root : Root} (hroot : root ∈ allowlist.roots)
    {names : List OsStr} {info : FileInfo}
    (hat : host.fs.at (root.canonical ++ names) = some (.File info))
    (hskip : isTorrentSkip (root.canonical ++ names) = false) :
    Allowlist.absolute host allowlist (root.entry names info).ref =
      .ok (root.canonical ++ names) :=
  ((absolute_regular_iff h).mpr (leads_entry hroot hat hskip)).1

-- No directory entry is listed twice.
theorem listed_once (h : Admitted host allowlist) :
    ((Listed host allowlist).map fun entry =>
      Allowlist.absolute host allowlist entry.ref).Nodup := by
  refine List.Nodup.map_on ?_ (List.Nodup.of_map _ (listed_keys h))
  intro entry hentry entry' hentry' hsame
  have hkey : sortKey entry = sortKey entry' := by
    obtain ⟨root, hroot, names, info, hat, hskip, rfl⟩ := (mem_listed h).mp hentry
    obtain ⟨root', hroot', names', info', hat', hskip', rfl⟩ := (mem_listed h).mp hentry'
    rw [absolute_listed h hroot hat hskip, absolute_listed h hroot' hat' hskip'] at hsame
    have hpath : root.canonical ++ names = root'.canonical ++ names' := Except.ok.inj hsame
    obtain rfl := h.root_above hroot hroot' ⟨names, rfl⟩ ⟨names', hpath.symm⟩
    obtain rfl := List.append_cancel_left hpath
    rfl
  exact List.inj_on_of_nodup_map (listed_keys h) hentry hentry' hkey

theorem Agree.plainly (h : Admitted host allowlist)
    (hagree : Agree host allowlist (Listed host allowlist)) : Plainly host allowlist := by
  intro root names info hreach hadjoins
  by_contra hnot
  have hlisted := (hagree.exactly _).mpr ⟨root, names, info, hreach, hnot, rfl⟩
  obtain ⟨root', hroot', names', info', -, hskip, hsame⟩ := (mem_listed h).mp hlisted
  obtain ⟨hid, rfl⟩ := sortKey_inj (congrArg sortKey hsame)
  obtain rfl := h.root_id hreach.1 hroot' hid
  rw [isTorrentSkip_iff.mpr hadjoins] at hskip
  cases hskip

theorem Plainly.agree (h : Admitted host allowlist)
    (hreadable : host.fs.Readable FileInfo.readable) (hplain : Plainly host allowlist) :
    Agree host allowlist (Listed host allowlist) where
  sorted := listed_sorted h
  once := listed_once h
  exactly entry := by
    rw [mem_listed h]
    constructor
    · rintro ⟨root, hroot, names, info, hat, hskip, rfl⟩
      refine ⟨root, names, info, ⟨hroot, hat⟩, fun hunder => ?_, rfl⟩
      rw [isTorrentSkip_iff.mpr hunder.adjoins] at hskip
      cases hskip
    · rintro ⟨root, names, info, hreach, hnot, rfl⟩
      refine ⟨root, hreach.1, names, info, hreach.2, ?_, rfl⟩
      rw [Bool.eq_false_iff]
      exact fun hskip => hnot (hplain root names info hreach (isTorrentSkip_iff.mp hskip))
  entries_found remote := by
    rw [IsListed, ← leads_iff_listed h]
    constructor
    · rintro ⟨entry, hentry⟩
      obtain ⟨path, info, hleads, -⟩ := (entry_ok_iff h).mp hentry
      exact ⟨path, info, hleads⟩
    · rintro ⟨path, info, hleads⟩
      exact ⟨_, (entry_ok_iff h).mpr ⟨path, info, hleads, rfl⟩⟩
  opens remote := by
    rw [IsListed, ← leads_iff_listed h, exists_comm]
    exact exists_congr fun info => openFile_ok_iff h hreadable
  unlinks remote := by
    rw [IsListed, ← leads_iff_listed h]
    exact exists_congr fun path => unlink_ok_iff h
  same _ _ hentry := entry_listed h hentry

-- Listing and lookup agree, and the listing is what the roots hold outside of
-- `torrents/incomplete`, if and only if no file is taken for one below it.
theorem walker_agrees (hreadable : host.fs.Readable FileInfo.readable)
    (calls : List (Text × Route OsStr)) :
    (∃ entries, Allowlist.list host (addRoots host calls) = .ok entries ∧
      Agree host (addRoots host calls) entries) ↔ Plainly host (addRoots host calls) := by
  have h := admitted_addRoots host calls
  rw [list_ok hreadable h]
  constructor
  · rintro ⟨entries, hlist, hagree⟩
    cases hlist
    exact hagree.plainly h
  · exact fun hplain => ⟨_, rfl, hplain.agree h hreadable⟩

end Agreement

section Resolution

variable {host : Host} {allowlist : Allowlist} {path : Route OsStr}

theorem refForCanonical_ok_iff (h : Admitted host allowlist) {canonical : List OsStr}
    {remote : RemoteRef} :
    Allowlist.refForCanonical allowlist path canonical = .ok remote ↔
      ∃ root ∈ allowlist.roots, ∃ names, canonical = root.canonical ++ names ∧
        remote = ⟨root.id, .through false names⟩ := by
  unfold Allowlist.refForCanonical
  cases hfind : allowlist.roots.find? fun r => r.canonical <+: canonical with
  | none =>
      constructor
      · intro hok
        cases hok
      · rintro ⟨root, hroot, names, rfl, -⟩
        have hnot := List.find?_eq_none.mp hfind root hroot
        simp at hnot
  | some root =>
      have hroot := List.mem_of_find?_eq_some hfind
      have hprefix : root.canonical <+: canonical := by simpa using List.find?_some hfind
      constructor
      · intro hok
        cases hok
        obtain ⟨names, rfl⟩ := hprefix
        exact ⟨root, hroot, names, rfl, by rw [List.drop_left]⟩
      · rintro ⟨other, hother, names, rfl, rfl⟩
        obtain rfl := h.root_above hroot hother hprefix ⟨names, rfl⟩
        dsimp only
        rw [List.drop_left]
        rfl

-- The path may be resolved: it does not go up, is spelled below a root, and what it
-- leads to is below one and not skipped.
structure Resolves (host : Host) (allowlist : Allowlist) (path : Route OsStr) (root : Root)
    (names : List OsStr) : Prop where
  noParent : ∀ c ∈ path.components, c ≠ .ParentDir
  spelled : Allowlist.spelledInside host allowlist path = true
  canonical : host.canonicalize path = .ok (root.canonical ++ names)
  root_mem : root ∈ allowlist.roots
  kept : isTorrentSkip (root.canonical ++ names) = false

theorem resolve_ok_iff (h : Admitted host allowlist) {remote : RemoteRef} :
    Allowlist.resolve host allowlist path = .ok remote ↔
      ∃ root names, Resolves host allowlist path root names ∧
        remote = ⟨root.id, .through false names⟩ := by
  unfold Allowlist.resolve
  constructor
  · intro hok
    obtain ⟨hparent, hok⟩ := guard_ok hok
    obtain ⟨hspelled, hok⟩ := guard_ok hok
    obtain ⟨canonical, hcanonical, hok⟩ := bind_ok hok
    obtain ⟨found, hfound, hok⟩ := bind_ok hok
    obtain ⟨hskip, hok⟩ := guard_ok hok
    cases hok
    obtain ⟨root, hroot, names, rfl, rfl⟩ := (refForCanonical_ok_iff h).mp hfound
    refine ⟨root, names, ⟨?_, by simpa using hspelled, mapError_ok hcanonical, hroot,
      by simpa using hskip⟩, rfl⟩
    intro c hc hsame
    exact hparent (List.any_eq_true.mpr ⟨c, hc, by simpa using hsame⟩)
  · rintro ⟨root, names, ⟨hparent, hspelled, hcanonical, hroot, hskip⟩, rfl⟩
    have hnone : (path.components.any fun c => c = .ParentDir) = false := by
      rw [List.any_eq_false]
      intro c hc
      simpa using hparent c hc
    have hfound : Allowlist.refForCanonical allowlist path (root.canonical ++ names) = .ok _ :=
      (refForCanonical_ok_iff h).mpr ⟨root, hroot, names, rfl, rfl⟩
    rw [hnone, hspelled, hcanonical]
    simp only [bind, Except.bind, Except.mapError, pure, Except.pure, Bool.false_eq_true, if_false,
      Bool.not_true]
    rw [hfound, hskip]
    rfl

-- The path is resolved, and leads to something else than a regular file.
def Strays (host : Host) (allowlist : Allowlist) (path : Route OsStr) : Prop :=
  ∃ root names, Resolves host allowlist path root names ∧
    ∀ info, host.fs.at (root.canonical ++ names) ≠ some (.File info)

theorem resolved_listed_iff (h : Admitted host allowlist) :
    (∀ remote, Allowlist.resolve host allowlist path = .ok remote →
      IsListed (Listed host allowlist) remote) ↔ ¬Strays host allowlist path := by
  constructor
  · rintro hmints ⟨root, names, hresolves, hnot⟩
    have hlisted := hmints _ ((resolve_ok_iff h).mpr ⟨root, names, hresolves, rfl⟩)
    obtain ⟨_, info, root', hroot', names', hid, hnames, rfl, hat, -⟩ :=
      (leads_iff_listed h).mpr hlisted
    obtain rfl := h.root_id hresolves.root_mem hroot' hid
    have hcomponents : names.map FileTree.Component.Normal = names'.map .Normal :=
      (Route.components_through false names).symm.trans hnames
    obtain rfl := List.map_injective_iff.mpr (fun _ _ hsame => by cases hsame; rfl) hcomponents
    exact hnot info hat
  · intro hnot remote hremote
    obtain ⟨root, names, hresolves, rfl⟩ := (resolve_ok_iff h).mp hremote
    by_contra hunlisted
    refine hnot ⟨root, names, hresolves, fun info hat => hunlisted ?_⟩
    exact (leads_iff_listed h).mp
      ⟨_, info, leads_entry hresolves.root_mem hat hresolves.kept⟩

-- A listed reference comes back from its own path.
theorem resolve_absolute (h : Admitted host allowlist) {remote : RemoteRef}
    (hlisted : IsListed (Listed host allowlist) remote) :
    ∃ path found, Allowlist.absolute host allowlist remote = .ok path ∧
      Allowlist.resolve host allowlist (.through true path) = .ok found ∧ found.Same remote := by
  obtain ⟨path, info, hleads⟩ := (leads_iff_listed h).mpr hlisted
  obtain ⟨habsolute, -⟩ := (absolute_regular_iff h).mpr hleads
  obtain ⟨root, hroot, names, hid, hnames, rfl, hat, hskip⟩ := hleads
  refine ⟨_, ⟨root.id, .through false names⟩, habsolute, (resolve_ok_iff h).mpr
    ⟨root, names, ⟨?_, ?_, ?_, hroot, hskip⟩, rfl⟩, hid.symm, ?_⟩
  · intro c hc
    rw [Route.components_through] at hc
    rintro rfl
    simp at hc
  · unfold Allowlist.spelledInside
    refine List.any_eq_true.mpr ⟨root, hroot, ?_⟩
    have hhere : Allowlist.fromHere host (.through true (root.canonical ++ names)) =
        .through true (root.canonical ++ names) := rfl
    rw [hhere, Bool.or_eq_true, decide_eq_true_eq, Route.components_through,
      Route.components_through, List.map_append]
    exact .inl ⟨names.map .Normal, by simp⟩
  · exact canonicalize_through ⟨_, hat, rfl⟩
  · rw [hnames]
    exact Route.components_through false names

-- `resolve` mints listed references only, if and only if the path does not stray; and
-- every listed reference is the one of its own path.
theorem resolve_mints (hreadable : host.fs.Readable FileInfo.readable)
    (calls : List (Text × Route OsStr)) (path : Route OsStr) :
    ∃ entries, Allowlist.list host (addRoots host calls) = .ok entries ∧
      ((∀ remote, Allowlist.resolve host (addRoots host calls) path = .ok remote →
        IsListed entries remote) ↔ ¬Strays host (addRoots host calls) path) ∧
      ∀ remote, IsListed entries remote →
        ∃ path found, Allowlist.absolute host (addRoots host calls) remote = .ok path ∧
          Allowlist.resolve host (addRoots host calls) (.through true path) = .ok found ∧
          found.Same remote := by
  have h := admitted_addRoots host calls
  exact ⟨_, list_ok hreadable h, resolved_listed_iff h, fun _ => resolve_absolute h⟩

end Resolution

namespace Sample

def file : OsStr := OsStr.ofString "a.mkv"

-- A name that is no text.
def raw : OsStr := [0xFF]

def info : FileInfo := { len := 5, mtime := 100, nlink := 1, readable := true }

-- One file, in a directory `incomplete` that is not in `torrents` itself.
def host : Host where
  fs := .Dir true (.Dir torrents true
    (.Dir raw true (.Dir incomplete true (.File file info .Nil) .Nil) .Nil) .Nil)
  cwd := []
  distinct := by simp [Found.Distinct, Tree.Distinct, Tree.names]
  top := ⟨true, _, rfl⟩
  home := ⟨true, _, rfl⟩

def calls : List (Text × Route OsStr) := [("box".toList, .through true [torrents])]

def root : Root := { id := "box".toList, original := .through true [torrents], canonical := [torrents] }

theorem readable : host.fs.Readable FileInfo.readable := by
  simp [host, info, Found.Readable, Tree.Readable]

theorem roots : addRoots host calls = { roots := [root] } := by rfl

theorem not_under : ¬UnderIncomplete (root.canonical ++ [raw, incomplete, file]) := by
  rintro ⟨front, back, hpath, -⟩
  have hpair := (zip_tail_any (fun pair => decide (pair = (torrents, incomplete))) _).mpr
    ⟨front, torrents, incomplete, back, hpath, by simp⟩
  exact absurd hpair (by decide +kernel)

theorem reached : host.fs.at (root.canonical ++ [raw, incomplete, file]) = some (.File info) := by
  simp [host, root, Found.at, Tree.lookup]

theorem top_found : ∃ children, host.fs.at (root.canonical ++ []) = some (.Dir true children) := by
  simp [host, root, Found.at, Tree.lookup]

theorem adjoining : Adjoins (root.canonical ++ [raw, incomplete, file]) := by
  refine ⟨[], [raw], [file], rfl, fun name hname => ?_⟩
  rw [List.mem_singleton.mp hname]
  decide

theorem admitted : Admitted host (addRoots host calls) := admitted_addRoots host calls

-- The file in the root itself.
def shelf : Host where
  fs := .Dir true (.Dir torrents true (.File file info .Nil) .Nil)
  cwd := []
  distinct := by simp [Found.Distinct, Tree.Distinct, Tree.names]
  top := ⟨true, _, rfl⟩
  home := ⟨true, _, rfl⟩

theorem shelf_readable : shelf.fs.Readable FileInfo.readable := by
  simp [shelf, info, Found.Readable, Tree.Readable]

theorem shelf_file : shelf.fs.at [torrents, file] = some (.File info) := by
  simp [shelf, Found.at, Tree.lookup]

theorem shelf_keeps : ¬Strays shelf (addRoots shelf calls) (.through true [torrents, file]) := by
  rintro ⟨root, names, hresolves, hnot⟩
  have hpath := hresolves.canonical
  rw [Host.canonicalize, canonicalize_through ⟨_, shelf_file, rfl⟩] at hpath
  apply hnot info
  rw [← Except.ok.inj hpath]
  exact shelf_file

end Sample

-- A directory between the two that is no text is passed over, and so is its file.
theorem raw_directory_hides :
    ¬∃ entries, Allowlist.list Sample.host (addRoots Sample.host Sample.calls) = .ok entries ∧
      Agree Sample.host (addRoots Sample.host Sample.calls) entries := by
  rintro ⟨entries, hlist, hagree⟩
  rw [list_ok Sample.readable Sample.admitted] at hlist
  obtain rfl := Except.ok.inj hlist
  have hplain := hagree.plainly Sample.admitted
  rw [Sample.roots] at hplain
  exact Sample.not_under (hplain Sample.root _ Sample.info ⟨List.mem_cons_self, Sample.reached⟩
    Sample.adjoining)

theorem walker_agrees_raw :
    (∃ entries, Allowlist.list Sample.host (addRoots Sample.host Sample.calls) = .ok entries ∧
      Agree Sample.host (addRoots Sample.host Sample.calls) entries) ↔
      Plainly Sample.host (addRoots Sample.host Sample.calls) :=
  walker_agrees Sample.readable Sample.calls

-- The root itself is resolved, and never listed.
theorem root_directory_minted :
    ¬∃ entries, Allowlist.list Sample.host (addRoots Sample.host Sample.calls) = .ok entries ∧
      ∀ remote, Allowlist.resolve Sample.host (addRoots Sample.host Sample.calls)
        (.through true [torrents]) = .ok remote → IsListed entries remote := by
  rintro ⟨entries, hlist, hmints⟩
  rw [list_ok Sample.readable Sample.admitted] at hlist
  obtain rfl := Except.ok.inj hlist
  obtain ⟨children, htop⟩ := Sample.top_found
  refine (resolved_listed_iff Sample.admitted).mp hmints ⟨Sample.root, [], ⟨?_, ?_, ?_, ?_, ?_⟩, ?_⟩
  · decide +kernel
  · rw [Sample.roots]
    decide +kernel
  · exact canonicalize_through ⟨_, htop, rfl⟩
  · rw [Sample.roots]
    exact List.mem_cons_self
  · decide +kernel
  · rw [htop]
    exact nofun

theorem resolve_mints_file :
    ∃ entries remote, Allowlist.list Sample.shelf (addRoots Sample.shelf Sample.calls) = .ok entries ∧
      Allowlist.resolve Sample.shelf (addRoots Sample.shelf Sample.calls)
        (.through true [torrents, Sample.file]) = .ok remote ∧
      IsListed entries remote ∧
      ∃ path found,
        Allowlist.absolute Sample.shelf (addRoots Sample.shelf Sample.calls) remote = .ok path ∧
        Allowlist.resolve Sample.shelf (addRoots Sample.shelf Sample.calls) (.through true path) =
          .ok found ∧ found.Same remote := by
  obtain ⟨entries, hlist, hmints, hback⟩ := resolve_mints Sample.shelf_readable Sample.calls
    (.through true [torrents, Sample.file])
  have hresolve : Allowlist.resolve Sample.shelf (addRoots Sample.shelf Sample.calls)
      (.through true [torrents, Sample.file]) =
        .ok ⟨"box".toList, .through false [Sample.file]⟩ := by decide +kernel
  have hlisted := hmints.mpr Sample.shelf_keeps _ hresolve
  exact ⟨entries, _, hlist, hresolve, hlisted, hback _ hlisted⟩

end Mediaops.FileWalk
