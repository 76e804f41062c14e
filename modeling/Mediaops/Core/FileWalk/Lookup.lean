import Mediaops.Core.FileWalk.Listing

namespace Mediaops.FileWalk

-- How a reference is looked up, and that it finds what the listing holds.

open FileTree Checks

section Lookup

variable {host : Host} {allowlist : Allowlist} {remote : RemoteRef}

theorem symlinkMetadata_below {path : List OsStr} {name : OsStr} (h : IsReal host.fs path) :
    host.symlinkMetadata (path ++ [name]) =
      (host.fs.at (path ++ [name])).elim (.error .NotFound) .ok :=
  lstat_below h

-- FileTree.Component by component nothing but names goes through, and no symlink.
theorem joinUnfollowed_ok_iff {rel : Route OsStr} {components : List (FileTree.Component OsStr)}
    {front path : List OsStr} (hfront : IsReal host.fs front) :
    Allowlist.joinUnfollowed host rel front components = .ok path ↔
      ∃ names, components = names.map .Normal ∧ path = front ++ names ∧ IsReal host.fs path := by
  induction components generalizing front with
  | nil =>
      rw [Allowlist.joinUnfollowed]
      constructor
      · intro h
        cases h
        exact ⟨[], rfl, by simp, hfront⟩
      · rintro ⟨names, hnames, rfl, -⟩
        rw [List.map_eq_nil_iff.mp hnames.symm, List.append_nil]
        rfl
  | cons component rest ih =>
      have hother : (∀ name, component ≠ .Normal name) →
          ¬∃ names, component :: rest = List.map FileTree.Component.Normal names ∧ path = front ++ names ∧
            IsReal host.fs path := by
        rintro hne ⟨names, hnames, -⟩
        cases names with
        | nil => cases hnames
        | cons name names =>
            rw [List.map_cons, List.cons.injEq] at hnames
            exact hne name hnames.1
      cases component with
      | Normal name =>
          rw [Allowlist.joinUnfollowed, symlinkMetadata_below hfront]
          constructor
          · intro h
            cases hat : host.fs.at (front ++ [name]) with
            | none =>
                rw [hat] at h
                cases h
            | some found =>
                rw [hat] at h
                have hreal : found.isSymlink = false ∧
                    Allowlist.joinUnfollowed host rel (front ++ [name]) rest = .ok path := by
                  cases found with
                  | Symlink target => cases h
                  | _ => exact ⟨rfl, h⟩
                obtain ⟨names, rfl, rfl, hpath⟩ := (ih ⟨found, hat, hreal.1⟩).mp hreal.2
                exact ⟨name :: names, rfl, by simp, hpath⟩
          · rintro ⟨names, hnames, rfl, hpath⟩
            cases names with
            | nil => cases hnames
            | cons first names =>
                cases hnames
                have hsplit : front ++ name :: names = (front ++ [name]) ++ names := by simp
                have hnext : IsReal host.fs (front ++ [name]) := by
                  by_cases hnames : names = []
                  · rw [hnames] at hpath
                    exact hpath
                  · obtain ⟨found, hat, -⟩ := hpath
                    rw [hsplit] at hat
                    exact (isDir_front hat hnames).real
                obtain ⟨found, hat, hreal⟩ := id hnext
                rw [hat]
                have hrest := (ih hnext).mpr ⟨names, rfl, hsplit, hpath⟩
                cases found with
                | Symlink target => cases hreal
                | _ => exact hrest
      | RootDir => exact ⟨nofun, fun h => absurd h (hother nofun)⟩
      | CurDir => exact ⟨nofun, fun h => absurd h (hother nofun)⟩
      | ParentDir => exact ⟨nofun, fun h => absurd h (hother nofun)⟩

theorem isContainedRelative_of {rel : Route OsStr} {names : List OsStr}
    (h : rel.components = names.map .Normal) : isContainedRelative rel = true := by
  have habsolute : rel.absolute = false := by
    by_contra hne
    rw [Bool.not_eq_false] at hne
    unfold Route.components at h
    rw [hne] at h
    cases names with
    | nil => cases h
    | cons => cases h
  unfold isContainedRelative
  rw [habsolute, h]
  simp

-- A reference leads where its names do below its root.
theorem absolute_ok_iff (h : Admitted host allowlist) {path : List OsStr} :
    Allowlist.absolute host allowlist remote = .ok path ↔
      ∃ root ∈ allowlist.roots, ∃ names, remote.rootId = root.id ∧
        remote.relPath.components = names.map .Normal ∧ path = root.canonical ++ names ∧
          IsReal host.fs path ∧ isTorrentSkip path = false := by
  unfold Allowlist.absolute
  cases hfind : allowlist.roots.find? fun r => r.id = remote.rootId with
  | none =>
      constructor
      · intro hok
        cases hok
      · rintro ⟨root, hroot, names, hid, -⟩
        have hnot := List.find?_eq_none.mp hfind root hroot
        simp [hid] at hnot
  | some root =>
      have hroot := List.mem_of_find?_eq_some hfind
      have hid : root.id = remote.rootId := by simpa using List.find?_some hfind
      have hjoin : Allowlist.joinUnfollowed host remote.relPath root.canonical
          remote.relPath.components = .ok path ↔ _ :=
        joinUnfollowed_ok_iff (h.dirs root hroot).real
      constructor
      · intro hok
        obtain ⟨-, hok⟩ := guard_ok hok
        obtain ⟨found, hfound, hok⟩ := bind_ok hok
        obtain ⟨hskip, hok⟩ := guard_ok hok
        cases hok
        obtain ⟨names, hnames, hpath, hreal⟩ := hjoin.mp hfound
        refine ⟨root, hroot, names, hid.symm, hnames, hpath, hreal, ?_⟩
        simp only [Bool.or_eq_true, not_or, Bool.not_eq_true] at hskip
        exact hskip.1
      · rintro ⟨other, hother, names, hid', hnames, hpath, hreal, hskip⟩
        obtain rfl := h.root_id hroot hother (hid.trans hid')
        dsimp only
        rw [if_neg (by simp [isContainedRelative_of hnames]),
          hjoin.mpr ⟨names, hnames, hpath, hreal⟩]
        have hprefix : root.canonical <+: path := ⟨names, hpath.symm⟩
        simp [hskip, hprefix, bind, Except.bind, pure, Except.pure]

theorem regularFile_ok_iff {path : List OsStr} (h : IsReal host.fs path) {info : FileInfo} :
    Allowlist.regularFile host path = .ok info ↔
      isTorrentSkip path = false ∧ host.fs.at path = some (.File info) := by
  obtain ⟨found, hat, hreal⟩ := h
  have hmeta : host.symlinkMetadata path = .ok found := lstat_real hat
  unfold Allowlist.regularFile
  rw [hmeta, hat]
  cases hskip : isTorrentSkip path with
  | true => exact ⟨nofun, nofun⟩
  | false =>
      cases found with
      | File info' => simp [pure, Except.pure]
      | Dir readable children => exact ⟨nofun, nofun⟩
      | Symlink target => cases hreal
      | Other => exact ⟨nofun, nofun⟩

-- The reference leads to a regular file that is not skipped.
def Leads (host : Host) (allowlist : Allowlist) (remote : RemoteRef) (path : List OsStr)
    (info : FileInfo) : Prop :=
  ∃ root ∈ allowlist.roots, ∃ names, remote.rootId = root.id ∧
    remote.relPath.components = names.map .Normal ∧ path = root.canonical ++ names ∧
      host.fs.at path = some (.File info) ∧ isTorrentSkip path = false

theorem absolute_regular_iff (h : Admitted host allowlist) {path : List OsStr} {info : FileInfo} :
    (Allowlist.absolute host allowlist remote = .ok path ∧
      Allowlist.regularFile host path = .ok info) ↔ Leads host allowlist remote path info := by
  rw [absolute_ok_iff h]
  constructor
  · rintro ⟨⟨root, hroot, names, hid, hnames, hpath, hreal, hskip⟩, hfile⟩
    exact ⟨root, hroot, names, hid, hnames, hpath, ((regularFile_ok_iff hreal).mp hfile).2, hskip⟩
  · rintro ⟨root, hroot, names, hid, hnames, hpath, hat, hskip⟩
    have hreal : IsReal host.fs path := ⟨_, hat, rfl⟩
    exact ⟨⟨root, hroot, names, hid, hnames, hpath, hreal, hskip⟩,
      (regularFile_ok_iff hreal).mpr ⟨hskip, hat⟩⟩

theorem entry_ok_iff (h : Admitted host allowlist) {entry : RemoteEntry} :
    Allowlist.entry host allowlist remote = .ok entry ↔
      ∃ path info, Leads host allowlist remote path info ∧
        entry = { ref := remote, len := info.len, mtime := info.mtime, nlink := info.nlink } := by
  unfold Allowlist.entry
  constructor
  · intro hok
    obtain ⟨path, hpath, hok⟩ := bind_ok hok
    obtain ⟨info, hinfo, hok⟩ := bind_ok hok
    cases hok
    exact ⟨path, info, (absolute_regular_iff h).mp ⟨hpath, hinfo⟩, rfl⟩
  · rintro ⟨path, info, hleads, rfl⟩
    obtain ⟨hpath, hinfo⟩ := (absolute_regular_iff h).mpr hleads
    rw [hpath]
    simp only [bind, Except.bind]
    rw [hinfo]
    rfl

theorem unlink_ok_iff (h : Admitted host allowlist) {path : List OsStr} :
    Allowlist.unlink host allowlist remote = .ok path ↔
      ∃ info, Leads host allowlist remote path info := by
  unfold Allowlist.unlink
  constructor
  · intro hok
    obtain ⟨path', hpath, hok⟩ := bind_ok hok
    obtain ⟨info, hinfo, hok⟩ := bind_ok hok
    cases hok
    exact ⟨info, (absolute_regular_iff h).mp ⟨hpath, hinfo⟩⟩
  · rintro ⟨info, hleads⟩
    obtain ⟨hpath, hinfo⟩ := (absolute_regular_iff h).mpr hleads
    rw [hpath]
    simp only [bind, Except.bind]
    rw [hinfo]
    rfl

theorem openFile_ok_iff (h : Admitted host allowlist)
    (hreadable : host.fs.Readable FileInfo.readable) {info : FileInfo} :
    Allowlist.openFile host allowlist remote = .ok info ↔
      ∃ path, Leads host allowlist remote path info := by
  unfold Allowlist.openFile
  constructor
  · intro hok
    obtain ⟨path, hpath, hok⟩ := bind_ok hok
    obtain ⟨entry, hentry, hok⟩ := bind_ok hok
    obtain ⟨path', info', hleads, -⟩ := (entry_ok_iff h).mp hentry
    obtain ⟨hpath', -⟩ := (absolute_regular_iff h).mpr hleads
    rw [hpath] at hpath'
    cases hpath'
    obtain ⟨root, hroot, names, hid, hnames, hsplit, hat, hskip⟩ := hleads
    have hmeta : host.symlinkMetadata path = .ok (.File info') := lstat_real hat
    have hopens : info'.readable = true := readable_at hreadable hat
    rw [hmeta] at hok
    dsimp only at hok
    rw [if_pos hopens] at hok
    cases hok
    exact ⟨path, root, hroot, names, hid, hnames, hsplit, hat, hskip⟩
  · rintro ⟨path, hleads⟩
    obtain ⟨hpath, -⟩ := (absolute_regular_iff h).mpr hleads
    have hentry := (entry_ok_iff h).mpr ⟨path, info, hleads, rfl⟩
    obtain ⟨root, hroot, names, hid, hnames, hsplit, hat, hskip⟩ := hleads
    have hmeta : host.symlinkMetadata path = .ok (.File info) := lstat_real hat
    have hopens : info.readable = true := readable_at hreadable hat
    rw [hpath]
    simp only [bind, Except.bind]
    rw [hentry, hmeta]
    dsimp only
    rw [if_pos hopens]
    rfl

-- The entries of the listing lead where they were found.
theorem leads_entry {root : Root} (hroot : root ∈ allowlist.roots) {names : List OsStr}
    {info : FileInfo} (hat : host.fs.at (root.canonical ++ names) = some (.File info))
    (hskip : isTorrentSkip (root.canonical ++ names) = false) :
    Leads host allowlist (root.entry names info).ref (root.canonical ++ names) info :=
  ⟨root, hroot, names, rfl, Route.components_through false names, rfl, hat, hskip⟩

theorem leads_iff_listed (h : Admitted host allowlist) :
    (∃ path info, Leads host allowlist remote path info) ↔
      ∃ entry ∈ Listed host allowlist, remote.Same entry.ref := by
  constructor
  · rintro ⟨_, info, root, hroot, names, hid, hnames, rfl, hat, hskip⟩
    refine ⟨root.entry names info, (mem_listed h).mpr ⟨root, hroot, names, info, hat, hskip, rfl⟩,
      hid, ?_⟩
    rw [hnames]
    exact (Route.components_through false names).symm
  · rintro ⟨entry, hentry, hid, hcomponents⟩
    obtain ⟨root, hroot, names, info, hat, hskip, rfl⟩ := (mem_listed h).mp hentry
    refine ⟨_, info, root, hroot, names, hid, ?_, rfl, hat, hskip⟩
    rw [hcomponents]
    exact Route.components_through false names

theorem entry_listed (h : Admitted host allowlist) {entry : RemoteEntry}
    (hentry : Allowlist.entry host allowlist remote = .ok entry) :
    ∃ listed ∈ Listed host allowlist, entry.Same listed := by
  obtain ⟨_, info, ⟨root, hroot, names, hid, hnames, rfl, hat, hskip⟩, rfl⟩ :=
    (entry_ok_iff h).mp hentry
  refine ⟨root.entry names info, (mem_listed h).mpr ⟨root, hroot, names, info, hat, hskip, rfl⟩,
    ⟨hid, ?_⟩, rfl, rfl, rfl⟩
  rw [hnames]
  exact (Route.components_through false names).symm

end Lookup

end Mediaops.FileWalk
