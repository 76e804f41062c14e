import Mediaops.Core.FileWalk
import Mediaops.Library.Checks
import Mathlib.Data.List.Pairwise

namespace Mediaops.FileWalk

-- What the roots of an allowlist are, and what a listing of them holds.

open FileTree Checks

section Skips

variable {path front : List OsStr}

abbrev torrents : OsStr := OsStr.ofString "torrents"

abbrev incomplete : OsStr := OsStr.ofString "incomplete"

-- Both names stand in the path, with no name between them that is text.
def Adjoins (path : List OsStr) : Prop :=
  ∃ front gap back, path = front ++ torrents :: (gap ++ incomplete :: back) ∧
    ∀ name ∈ gap, isUtf8 name = false

theorem zip_tail_any {α : Type} (p : α × α → Bool) (xs : List α) :
    (xs.zip xs.tail).any p = true ↔
      ∃ front x y back, xs = front ++ x :: y :: back ∧ p (x, y) = true := by
  induction xs with
  | nil => simp
  | cons first rest ih =>
      cases rest with
      | nil =>
          simp only [List.tail_cons, List.zip_nil_right, List.any_nil, Bool.false_eq_true, false_iff]
          rintro ⟨front, x, y, back, hsplit, -⟩
          have hlen := congrArg List.length hsplit
          simp at hlen
          omega
      | cons second rest =>
          have hcons : ((first :: second :: rest).zip (first :: second :: rest).tail).any p =
              (p (first, second) || ((second :: rest).zip (second :: rest).tail).any p) := rfl
          rw [hcons, Bool.or_eq_true, ih]
          constructor
          · rintro (hp | ⟨front, x, y, back, hsplit, hp⟩)
            · exact ⟨[], first, second, rest, rfl, hp⟩
            · exact ⟨first :: front, x, y, back, by rw [hsplit]; rfl, hp⟩
          · rintro ⟨front, x, y, back, hsplit, hp⟩
            cases front with
            | nil =>
                cases hsplit
                exact .inl hp
            | cons head front =>
                rw [List.cons_append, List.cons.injEq] at hsplit
                exact .inr ⟨front, x, y, back, hsplit.2, hp⟩

theorem isTorrentSkip_iff : isTorrentSkip path = true ↔ Adjoins path := by
  have htorrents : isUtf8 torrents = true := by decide +kernel
  have hincomplete : isUtf8 incomplete = true := by decide +kernel
  unfold isTorrentSkip
  rw [zip_tail_any]
  constructor
  · rintro ⟨front, x, y, back, hsplit, hp⟩
    simp only [Bool.and_eq_true, decide_eq_true_eq] at hp
    obtain ⟨rfl, rfl⟩ := hp
    obtain ⟨before, after, rfl, -, hafter⟩ := List.filter_eq_append_iff.mp hsplit
    obtain ⟨skipped, later, rfl, -, -, hlater⟩ := List.filter_eq_cons_iff.mp hafter
    obtain ⟨gap, last, rfl, hgap, -, -⟩ := List.filter_eq_cons_iff.mp hlater
    refine ⟨before ++ skipped, gap, last, by simp, fun name hname => ?_⟩
    simpa using hgap name hname
  · rintro ⟨front, gap, back, rfl, hgap⟩
    refine ⟨front.filter isUtf8, torrents, incomplete, back.filter isUtf8, ?_, by simp⟩
    have hnone : gap.filter isUtf8 = [] := by
      rw [List.filter_eq_nil_iff]
      intro name hname
      simp [hgap name hname]
    rw [List.filter_append, List.filter_cons_of_pos htorrents, List.filter_append, hnone,
      List.filter_cons_of_pos hincomplete]
    rfl

-- Whatever is below a skipped directory is skipped with it.
theorem isTorrentSkip_below (h : isTorrentSkip front = true) (below : List OsStr) :
    isTorrentSkip (front ++ below) = true := by
  rw [isTorrentSkip_iff] at h ⊢
  obtain ⟨before, gap, back, rfl, hgap⟩ := h
  exact ⟨before, gap, back ++ below, by simp, hgap⟩

end Skips

section Roots

variable {host : Host} {allowlist next : Allowlist}

def Root.Apart (a b : Root) : Prop :=
  ¬a.canonical <+: b.canonical ∧ ¬b.canonical <+: a.canonical

instance : Std.Symm Root.Apart := ⟨fun _ _ => And.symm⟩

-- The roots are directories, none of them in another, and have ids of their own.
structure Admitted (host : Host) (allowlist : Allowlist) : Prop where
  ids : (allowlist.roots.map Root.id).Nodup
  dirs : ∀ root ∈ allowlist.roots, IsDir host.fs root.canonical
  apart : allowlist.roots.Pairwise Root.Apart

theorem admitted_new (host : Host) : Admitted host Allowlist.new where
  ids := List.nodup_nil
  dirs _ hroot := absurd hroot List.not_mem_nil
  apart := .nil

theorem Admitted.addRoot {rootId : Text} {path : Route OsStr} (h : Admitted host allowlist)
    (hadd : Allowlist.addRoot host rootId path allowlist = .ok next) : Admitted host next := by
  unfold Allowlist.addRoot at hadd
  obtain ⟨-, hadd⟩ := guard_ok hadd
  obtain ⟨hid, hadd⟩ := guard_ok hadd
  obtain ⟨canonical, hcanonical, hadd⟩ := bind_ok hadd
  split at hadd
  · rename_i readable children hat
    obtain ⟨-, hadd⟩ := guard_ok hadd
    split at hadd
    · cases hadd
    · rename_i hfind
      cases hadd
      have hfresh : rootId ∉ allowlist.roots.map Root.id := by
        intro hmem
        obtain ⟨root, hroot, hsame⟩ := List.mem_map.mp hmem
        exact hid (List.any_eq_true.mpr ⟨root, hroot, by simpa using hsame⟩)
      refine ⟨?_, ?_, ?_⟩
      · simpa using List.Nodup.append h.ids (List.nodup_singleton rootId) (by simpa using hfresh)
      · intro root hroot
        rcases List.mem_append.mp hroot with hroot | hroot
        · exact h.dirs root hroot
        · rw [List.mem_singleton.mp hroot]
          exact ⟨readable, children, hat⟩
      · refine List.pairwise_append.mpr ⟨h.apart, List.pairwise_singleton _ _, ?_⟩
        intro root hroot added hadded
        rw [List.mem_singleton.mp hadded]
        have hnot := List.find?_eq_none.mp hfind root hroot
        simpa [Root.Apart] using hnot
  · cases hadd

theorem admitted_addRoots (host : Host) (calls : List (Text × Route OsStr)) :
    Admitted host (addRoots host calls) := by
  unfold addRoots
  have hstart := admitted_new host
  generalize Allowlist.new = start at hstart ⊢
  induction calls generalizing start with
  | nil => exact hstart
  | cons call rest ih =>
      rw [List.foldl_cons]
      apply ih
      split
      · rename_i hadd
        exact hstart.addRoot hadd
      · exact hstart

-- A root is known by its id, and by any path below it.
theorem Admitted.root_id (h : Admitted host allowlist) {a b : Root} (ha : a ∈ allowlist.roots)
    (hb : b ∈ allowlist.roots) (hid : a.id = b.id) : a = b :=
  List.inj_on_of_nodup_map h.ids ha hb hid

theorem Admitted.root_above (h : Admitted host allowlist) {a b : Root} {path : List OsStr}
    (ha : a ∈ allowlist.roots) (hb : b ∈ allowlist.roots) (hpath : a.canonical <+: path)
    (hpath' : b.canonical <+: path) : a = b := by
  by_contra hne
  obtain ⟨hab, hba⟩ := h.apart.forall ha hb hne
  exact (List.prefix_or_prefix_of_prefix hpath hpath').elim hab hba

end Roots

section Listing

variable {host : Host} {allowlist : Allowlist} {root : Root}

-- What a walk of a readable tree finds.
def walked (root : Root) (dir rel : List OsStr) (tree : Tree OsStr FileInfo) : List RemoteEntry :=
  (tree.files.filter fun file => !isTorrentSkip (dir ++ file.1)).map fun file =>
    root.entry (rel ++ file.1) file.2

theorem walkDir_ok {tree : Tree OsStr FileInfo} (h : tree.Readable FileInfo.readable)
    (root : Root) (dir rel : List OsStr) :
    walkDir root dir rel tree = .ok (walked root dir rel tree) := by
  induction tree generalizing dir rel with
  | Nil => rfl
  | File name info rest ih =>
      rw [walkDir, ih h.2]
      unfold walked
      simp only [bind, Except.bind, Tree.files]
      by_cases hskip : isTorrentSkip (dir ++ [name]) = true
      · rw [if_pos hskip, List.filter_cons_of_neg (by simpa using hskip)]
        rfl
      · rw [if_neg hskip, List.filter_cons_of_pos (by simpa using hskip)]
        rfl
  | Dir name readable children rest ihChildren ih =>
      obtain ⟨⟨hreadable, hchildren⟩, hrest⟩ := h
      have hbelow : ∀ below : List OsStr, dir ++ name :: below = (dir ++ [name]) ++ below := by simp
      have hhere : (if isTorrentSkip (dir ++ [name]) then pure []
          else if readable then walkDir root (dir ++ [name]) (rel ++ [name]) children
          else throw (.Io (.Absolute (dir ++ [name])))) = Except.ok
            (((children.files.map fun file => (name :: file.1, file.2)).filter fun file =>
              !isTorrentSkip (dir ++ file.1)).map fun file => root.entry (rel ++ file.1) file.2) := by
        rw [List.filter_map, List.map_map]
        by_cases hskip : isTorrentSkip (dir ++ [name]) = true
        · rw [if_pos hskip, List.filter_eq_nil_iff.mpr]
          · rfl
          · intro file _
            have hskipped : isTorrentSkip (dir ++ name :: file.1) = true := by
              rw [hbelow]
              exact isTorrentSkip_below hskip file.1
            simp [hskipped]
        · rw [if_neg hskip, if_pos hreadable, ihChildren hchildren]
          unfold walked
          congr 2
          · funext file
            simp only [List.append_assoc, List.singleton_append, Function.comp]
          · congr 1
            funext file
            simp only [List.append_assoc, List.singleton_append, Function.comp]
      rw [walkDir, hhere, ih hrest]
      unfold walked
      simp only [bind, Except.bind, Tree.files, List.filter_append, List.map_append]
      rfl
  | Symlink name target rest ih => exact ih h dir rel
  | Other name rest ih => exact ih h dir rel

-- What is found of a root.
def found (host : Host) (root : Root) : List RemoteEntry :=
  match host.fs.at root.canonical with
  | some (.Dir _ children) => walked root root.canonical [] children
  | _ => []

theorem mem_found (hdir : IsDir host.fs root.canonical) {entry : RemoteEntry} :
    entry ∈ found host root ↔ ∃ names info,
      host.fs.at (root.canonical ++ names) = some (.File info) ∧
        isTorrentSkip (root.canonical ++ names) = false ∧ entry = root.entry names info := by
  obtain ⟨readable, children, hat⟩ := hdir
  have hdistinct : children.Distinct := distinct_at host.distinct hat
  have hbelow : ∀ names, host.fs.at (root.canonical ++ names) =
      (Found.Dir readable children).at names := by
    intro names
    rw [Found.at_append, hat]
    rfl
  unfold found
  rw [hat]
  simp only [walked, List.mem_map, List.mem_filter, hbelow]
  constructor
  · rintro ⟨⟨names, info⟩, ⟨hmem, hskip⟩, rfl⟩
    exact ⟨names, info, (mem_files hdistinct readable).mp hmem, by simpa using hskip, rfl⟩
  · rintro ⟨names, info, hfile, hskip, rfl⟩
    exact ⟨(names, info), ⟨(mem_files hdistinct readable).mpr hfile, by simpa using hskip⟩, rfl⟩

theorem walkRoots_ok (hreadable : host.fs.Readable FileInfo.readable) {roots : List Root}
    (hdirs : ∀ root ∈ roots, IsDir host.fs root.canonical) :
    Allowlist.walkRoots host roots = .ok (roots.flatMap (found host)) := by
  induction roots with
  | nil => rfl
  | cons root rest ih =>
      obtain ⟨readable, children, hat⟩ := hdirs root List.mem_cons_self
      obtain ⟨rfl, hchildren⟩ := readable_at hreadable hat
      have hfound : found host root = walked root root.canonical [] children := by
        unfold found
        rw [hat]
      rw [Allowlist.walkRoots, hat, ih fun root hroot => hdirs root (List.mem_cons_of_mem _ hroot),
        List.flatMap_cons, hfound]
      dsimp only
      rw [walkDir_ok hchildren]
      rfl

def Listed (host : Host) (allowlist : Allowlist) : List RemoteEntry :=
  (allowlist.roots.flatMap (found host)).insertionSort fun a b => sortKey a ≤ sortKey b

theorem list_ok (hreadable : host.fs.Readable FileInfo.readable) (h : Admitted host allowlist) :
    Allowlist.list host allowlist = .ok (Listed host allowlist) := by
  unfold Allowlist.list
  rw [walkRoots_ok hreadable h.dirs]
  rfl

theorem mem_listed (h : Admitted host allowlist) {entry : RemoteEntry} :
    entry ∈ Listed host allowlist ↔ ∃ root ∈ allowlist.roots, ∃ names info,
      host.fs.at (root.canonical ++ names) = some (.File info) ∧
        isTorrentSkip (root.canonical ++ names) = false ∧ entry = root.entry names info := by
  unfold Listed
  rw [List.mem_insertionSort, List.mem_flatMap]
  constructor
  · rintro ⟨root, hroot, hentry⟩
    exact ⟨root, hroot, (mem_found (h.dirs root hroot)).mp hentry⟩
  · rintro ⟨root, hroot, hentry⟩
    exact ⟨root, hroot, (mem_found (h.dirs root hroot)).mpr hentry⟩

theorem sortKey_inj {a b : Root} {names names' : List OsStr} {info info' : FileInfo}
    (h : sortKey (a.entry names info) = sortKey (b.entry names' info')) :
    a.id = b.id ∧ names = names' := by
  have hpair := toLex.injective h
  simp only [Root.entry, Route.names_through, Prod.mk.injEq] at hpair
  have hbytes : Function.Injective fun name : OsStr => name.map UInt8.toNat :=
    List.map_injective_iff.mpr fun _ _ hsame => UInt8.toNat_inj.mp hsame
  exact ⟨hpair.1, List.map_injective_iff.mpr hbytes hpair.2⟩

theorem found_nodup (host : Host) (root : Root) :
    ((found host root).map sortKey).Nodup := by
  unfold found
  split
  · rename_i readable children hat
    have hdistinct : children.Distinct := distinct_at host.distinct hat
    unfold walked
    rw [List.map_map]
    have hfiles := (List.filter_sublist (l := children.files)
      (p := fun file => !isTorrentSkip (root.canonical ++ file.1))).map Prod.fst |>.nodup
        (files_nodup hdistinct)
    refine List.Nodup.map_on ?_ (List.Nodup.of_map _ hfiles)
    intro file hfile file' hfile' hsame
    have hnames : file.1 = file'.1 := (sortKey_inj hsame).2
    exact List.inj_on_of_nodup_map hfiles hfile hfile' hnames
  · exact List.nodup_nil

theorem listed_keys (h : Admitted host allowlist) :
    ((Listed host allowlist).map sortKey).Nodup := by
  have hroots : ∀ roots : List Root, (roots.map Root.id).Nodup →
      (∀ root ∈ roots, IsDir host.fs root.canonical) →
      ((roots.flatMap (found host)).map sortKey).Nodup := by
    intro roots hids hdirs
    induction roots with
    | nil => exact List.nodup_nil
    | cons root rest ih =>
        obtain ⟨hfresh, hids⟩ := List.nodup_cons.mp hids
        have hrest := fun root hroot => hdirs root (List.mem_cons_of_mem _ hroot)
        rw [List.flatMap_cons, List.map_append]
        refine (found_nodup host root).append (ih hids hrest) ?_
        intro key hhere hlater
        obtain ⟨entry, hentry, rfl⟩ := List.mem_map.mp hhere
        obtain ⟨entry', hentry', hsame⟩ := List.mem_map.mp hlater
        obtain ⟨other, hother, hentry'⟩ := List.mem_flatMap.mp hentry'
        obtain ⟨names, info, -, -, rfl⟩ := (mem_found (hdirs root List.mem_cons_self)).mp hentry
        obtain ⟨names', info', -, -, rfl⟩ := (mem_found (hrest other hother)).mp hentry'
        have hid := (sortKey_inj hsame).1
        exact hfresh (hid ▸ List.mem_map_of_mem hother)
  have hperm : (Listed host allowlist).Perm (allowlist.roots.flatMap (found host)) :=
    List.perm_insertionSort _ _
  exact (hperm.map sortKey).nodup_iff.mpr (hroots _ h.ids h.dirs)

-- Strictly by root and path.
theorem listed_sorted (h : Admitted host allowlist) :
    (Listed host allowlist).Pairwise fun a b => sortKey a < sortKey b := by
  have hle : (Listed host allowlist).Pairwise fun a b => sortKey a ≤ sortKey b := by
    have : Std.Total fun a b : RemoteEntry => sortKey a ≤ sortKey b := ⟨fun a b => le_total _ _⟩
    have : IsTrans RemoteEntry fun a b => sortKey a ≤ sortKey b := ⟨fun _ _ _ => le_trans⟩
    exact List.pairwise_insertionSort _ _
  have hne : (Listed host allowlist).Pairwise fun a b => sortKey a ≠ sortKey b :=
    List.pairwise_map.mp (listed_keys h)
  exact (hle.and hne).imp fun hboth => lt_of_le_of_ne hboth.1 hboth.2

end Listing

end Mediaops.FileWalk
