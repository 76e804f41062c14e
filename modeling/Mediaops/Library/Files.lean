import Mathlib.Data.List.Count
import Mathlib.Logic.Function.Basic
import Mediaops.Library.Table

namespace Mediaops

abbrev Bytes := List UInt8

namespace Bytes

def slice (offset len : Nat) (bytes : Bytes) : Bytes := (bytes.drop offset).take len

-- Cut or pad with zeros, as `ftruncate` does.
def resize (len : Nat) (bytes : Bytes) : Bytes :=
  bytes.take len ++ List.replicate (len - bytes.length) 0

-- A write past the end first fills the gap.
def overwrite (offset : Nat) (new bytes : Bytes) : Bytes :=
  (resize (max offset bytes.length) bytes).take offset ++ new ++ bytes.drop (offset + new.length)

theorem length_resize (len : Nat) (bytes : Bytes) : (resize len bytes).length = len := by
  simp [resize]
  omega

theorem getElem?_resize {len j : Nat} {bytes : Bytes} (hj : j < len) (hb : j < bytes.length) :
    (resize len bytes)[j]? = bytes[j]? := by
  unfold resize
  rw [List.getElem?_append_left (by simp; omega), List.getElem?_take_of_lt hj]

theorem length_overwrite {offset : Nat} {new bytes : Bytes}
    (h : offset + new.length ≤ bytes.length) : (overwrite offset new bytes).length = bytes.length := by
  simp [overwrite, length_resize]
  omega

theorem getElem?_overwrite_of_lt {offset j : Nat} {new bytes : Bytes} (h : offset ≤ bytes.length)
    (hj : j < offset) : (overwrite offset new bytes)[j]? = bytes[j]? := by
  unfold overwrite
  rw [List.append_assoc, List.getElem?_append_left (by simp [length_resize]; omega),
    List.getElem?_take_of_lt hj, getElem?_resize (by omega) (by omega)]

theorem getElem?_overwrite_of_mem {offset j : Nat} {new bytes : Bytes} (h : offset ≤ bytes.length)
    (hj : j < new.length) : (overwrite offset new bytes)[offset + j]? = new[j]? := by
  have hlen : ((resize (max offset bytes.length) bytes).take offset).length = offset := by
    simp only [List.length_take, length_resize]
    omega
  unfold overwrite
  rw [List.append_assoc, List.getElem?_append_right (by omega), hlen, Nat.add_sub_cancel_left,
    List.getElem?_append_left hj]

theorem getElem?_overwrite_of_ge {offset j : Nat} {new bytes : Bytes} (h : offset ≤ bytes.length)
    (hj : offset + new.length ≤ j) : (overwrite offset new bytes)[j]? = bytes[j]? := by
  have hlen : ((resize (max offset bytes.length) bytes).take offset).length = offset := by
    simp only [List.length_take, length_resize]
    omega
  unfold overwrite
  rw [List.append_assoc, List.getElem?_append_right (by omega), hlen,
    List.getElem?_append_right (by omega), List.getElem?_drop]
  congr 1
  omega

theorem getElem?_slice {offset len j : Nat} {bytes : Bytes} (hj : j < len) :
    (slice offset len bytes)[j]? = bytes[offset + j]? := by
  rw [slice, List.getElem?_take_of_lt hj, List.getElem?_drop]

end Bytes

-- A directory entry: a regular file, named by its inode, or anything else.
inductive Node where
  | File (ino : Nat)
  | Other
  deriving DecidableEq, Repr

inductive FsError where
  | NotFound | AlreadyExists | NotFile
  deriving DecidableEq, Repr

-- A file system: names, the contents of the inodes, and the first unused inode.
structure Files (N : Type) where
  dir : List (N × Node)
  data : Nat → Bytes
  next : Nat
  distinct : Table.Keyed Prod.fst dir
  bound : ∀ n i, (n, Node.File i) ∈ dir → i < next

namespace Files

theorem bound_none {N : Type} (n : N) (i : Nat) (h : (n, Node.File i) ∈ []) : i < 0 :=
  absurd h List.not_mem_nil

theorem bound_one {N : Type} {name : N} (n : N) (i : Nat) (h : (n, Node.File i) ∈ [(name, .File 0)]) :
    i < 1 := by
  simp only [List.mem_singleton, Prod.mk.injEq, Node.File.injEq] at h
  omega

variable {N : Type} [DecidableEq N]

def node (fs : Files N) (n : N) : Option Node := (Table.lookup Prod.fst n fs.dir).map Prod.snd

def content (fs : Files N) (n : N) : Option Bytes :=
  match fs.node n with
  | some (.File i) => some (fs.data i)
  | _ => none

-- The number of names of an inode.
def nlink (fs : Files N) (i : Nat) : Nat := fs.dir.countP fun entry => entry.2 = .File i

theorem node_mem {fs : Files N} {n : N} {node : Node} (h : fs.node n = some node) :
    (n, node) ∈ fs.dir := by
  obtain ⟨⟨m, node'⟩, hfound, rfl⟩ := Option.map_eq_some_iff.mp h
  obtain ⟨hmem, rfl⟩ := Table.lookup_some hfound
  exact hmem

theorem node_bound {fs : Files N} {n : N} {i : Nat} (h : fs.node n = some (.File i)) :
    i < fs.next := fs.bound n i (node_mem h)

theorem node_fresh {fs : Files N} {n : N} (h : fs.node n = none) (node : Node) :
    Table.Keyed Prod.fst ((n, node) :: fs.dir) := by
  refine List.nodup_cons.mpr ⟨?_, fs.distinct⟩
  intro hmem
  obtain ⟨entry, hentry, hn⟩ := List.mem_map.mp hmem
  exact Table.lookup_none (Option.map_eq_none_iff.mp h) hentry hn

-- A new name; the entry refuses a name that is taken.
def enter (fs : Files N) (n : N) (i : Nat) (h : fs.node n = none) (hi : i < fs.next) : Files N where
  dir := (n, .File i) :: fs.dir
  data := fs.data
  next := fs.next
  distinct := node_fresh h _
  bound := by
    intro m j hmem
    rcases List.mem_cons.mp hmem with hmem | hmem
    · cases hmem; exact hi
    · exact fs.bound m j hmem

-- `link(2)`: it never replaces.
def link (fs : Files N) (source dest : N) : Except FsError (Files N) :=
  match hs : fs.node source with
  | none => throw .NotFound
  | some .Other => throw .NotFile
  | some (.File i) =>
      if h : fs.node dest = none then pure (fs.enter dest i h (node_bound hs))
      else throw .AlreadyExists

def drop (fs : Files N) (n : N) : Files N where
  dir := Table.erase Prod.fst n fs.dir
  data := fs.data
  next := fs.next
  distinct := fs.distinct.erase n
  bound m j hmem := fs.bound m j (List.mem_of_mem_filter hmem)

-- All the names of a kind at once.
def sweep (fs : Files N) (gone : N → Bool) : Files N where
  dir := fs.dir.filter fun entry => !gone entry.1
  data := fs.data
  next := fs.next
  distinct := (List.filter_sublist.map Prod.fst).nodup fs.distinct
  bound m j hmem := fs.bound m j (List.mem_of_mem_filter hmem)

-- `unlink(2)`
def unlink (fs : Files N) (n : N) : Except FsError (Files N) :=
  if fs.node n = none then throw .NotFound else pure (fs.drop n)

def alloc (fs : Files N) : Files N where
  dir := fs.dir
  data := Function.update fs.data fs.next []
  next := fs.next + 1
  distinct := fs.distinct
  bound n i h := Nat.lt_succ_of_lt (fs.bound n i h)

-- `open(2)` with `O_CREAT | O_EXCL`: the new file's inode.
def create (fs : Files N) (n : N) : Except FsError (Nat × Files N) :=
  if h : fs.node n = none then pure (fs.next, fs.alloc.enter n fs.next h (Nat.lt_succ_self _))
  else throw .AlreadyExists

-- The contents of an inode.
def store (fs : Files N) (i : Nat) (bytes : Bytes) : Files N :=
  { fs with data := Function.update fs.data i bytes }

section Nodes

variable {fs fs' : Files N}

omit [DecidableEq N] in
@[simp] theorem data_store (fs : Files N) (i : Nat) (bytes : Bytes) :
    (fs.store i bytes).data i = bytes := Function.update_self ..

omit [DecidableEq N] in
theorem data_store_of_ne (fs : Files N) {i j : Nat} (h : j ≠ i) (bytes : Bytes) :
    (fs.store i bytes).data j = fs.data j := Function.update_of_ne h ..

theorem node_enter (fs : Files N) (n : N) (i : Nat) (h : fs.node n = none) (hi : i < fs.next)
    (m : N) : (fs.enter n i h hi).node m = if m = n then some (.File i) else fs.node m := by
  by_cases hm : m = n
  · subst hm
    simp [node, enter, Table.lookup]
  · rw [if_neg hm]
    have hne : n ≠ m := fun he => hm he.symm
    simp [node, enter, Table.lookup, hne]

theorem node_drop (fs : Files N) (n m : N) :
    (fs.drop n).node m = if m = n then none else fs.node m := by
  by_cases hm : m = n
  · subst hm
    rw [if_pos rfl, node, drop, Table.lookup_erase_self]
    rfl
  · have hkeep : Table.lookup Prod.fst m (Table.erase Prod.fst n fs.dir) =
        Table.lookup Prod.fst m fs.dir := Table.lookup_erase_of_ne (Ne.symm hm) fs.dir
    rw [if_neg hm, node, drop, hkeep]
    rfl

theorem node_sweep (fs : Files N) (gone : N → Bool) {n : N} (h : gone n = false) :
    (fs.sweep gone).node n = fs.node n := by
  have hkeep : Table.lookup Prod.fst n (fs.sweep gone).dir = Table.lookup Prod.fst n fs.dir := by
    unfold Table.lookup sweep
    rw [List.find?_filter]
    congr 1
    funext entry
    by_cases hn : entry.1 = n
    · simp [hn, h]
    · simp [hn]
  rw [node, hkeep]
  rfl

theorem node_free (fs : Files N) (source dest : N) : ((fs.drop dest).drop source).node dest = none := by
  rw [node_drop, node_drop, if_pos rfl]
  split <;> rfl

-- `rename(2)` of a regular file onto a name that is free or another regular file's.
-- Two names of one file both stay.
def rename (fs : Files N) (source dest : N) : Except FsError (Files N) :=
  match hs : fs.node source with
  | none => throw .NotFound
  | some .Other => throw .NotFile
  | some (.File i) =>
      if fs.node dest = some .Other then throw .NotFile
      else if fs.node dest = some (.File i) then pure fs
      else pure (((fs.drop dest).drop source).enter dest i (node_free fs source dest)
        (fs.bound _ i (node_mem hs)))

-- What a link that went through did.
theorem link_ok {source dest : N} (h : fs.link source dest = .ok fs') :
    ∃ i, fs.node source = some (.File i) ∧ fs.node dest = none ∧ fs'.data = fs.data ∧
      fs'.next = fs.next ∧ ∀ m, fs'.node m = if m = dest then some (.File i) else fs.node m := by
  unfold link at h
  split at h
  · cases h
  · cases h
  · rename_i i hs
    by_cases hd : fs.node dest = none
    · rw [dif_pos hd] at h
      cases h
      exact ⟨i, hs, hd, rfl, rfl, node_enter fs dest i hd (node_bound hs)⟩
    · rw [dif_neg hd] at h
      cases h

theorem unlink_ok {n : N} (h : fs.unlink n = .ok fs') :
    fs'.data = fs.data ∧ fs'.next = fs.next ∧
      ∀ m, fs'.node m = if m = n then none else fs.node m := by
  unfold unlink at h
  by_cases hn : fs.node n = none
  · rw [if_pos hn] at h; cases h
  · rw [if_neg hn] at h
    cases h
    exact ⟨rfl, rfl, node_drop fs n⟩

theorem create_ok {n : N} {i : Nat} (h : fs.create n = .ok (i, fs')) :
    i = fs.next ∧ fs.node n = none ∧ fs'.data = Function.update fs.data fs.next [] ∧
      fs'.next = fs.next + 1 ∧
      ∀ m, fs'.node m = if m = n then some (.File fs.next) else fs.node m := by
  unfold create at h
  by_cases hn : fs.node n = none
  · rw [dif_pos hn] at h
    cases h
    exact ⟨rfl, hn, rfl, rfl, node_enter fs.alloc n fs.next hn (Nat.lt_succ_self _)⟩
  · rw [dif_neg hn] at h; cases h

-- A rename that went through: the file is at `dest`, and no third name has changed.
theorem rename_ok {source dest : N} (h : fs.rename source dest = .ok fs') :
    ∃ i, fs.node source = some (.File i) ∧ fs'.data = fs.data ∧ fs'.node dest = some (.File i) ∧
      ∀ m, m ≠ dest → m ≠ source → fs'.node m = fs.node m := by
  unfold rename at h
  split at h
  · cases h
  · cases h
  · rename_i i hs
    by_cases hother : fs.node dest = some .Other
    · rw [if_pos hother] at h
      cases h
    · rw [if_neg hother] at h
      by_cases hsame : fs.node dest = some (.File i)
      · rw [if_pos hsame] at h
        cases h
        exact ⟨i, hs, rfl, hsame, fun _ _ _ => rfl⟩
      · rw [if_neg hsame] at h
        cases h
        refine ⟨i, hs, rfl, ?_, fun m hdest hsource => ?_⟩
        · exact (node_enter _ _ _ _ _ dest).trans (if_pos rfl)
        · refine (node_enter _ _ _ _ _ m).trans ?_
          rw [if_neg hdest, node_drop, if_neg hsource, node_drop, if_neg hdest]

-- When each of them goes through.
theorem link_free {source dest : N} {i : Nat} (hs : fs.node source = some (.File i))
    (hd : fs.node dest = none) : ∃ fs', fs.link source dest = .ok fs' := by
  unfold link
  split
  · rename_i h
    rw [hs] at h
    cases h
  · rename_i h
    rw [hs] at h
    cases h
  · rw [dif_pos hd]
    exact ⟨_, rfl⟩

theorem unlink_present {n : N} (h : fs.node n ≠ none) : fs.unlink n = .ok (fs.drop n) := by
  unfold unlink
  rw [if_neg h]
  rfl

theorem create_free {n : N} (h : fs.node n = none) :
    ∃ fs', fs.create n = .ok (fs.next, fs') := by
  unfold create
  rw [dif_pos h]
  exact ⟨_, rfl⟩

theorem rename_free {source dest : N} {i j : Nat} (hs : fs.node source = some (.File i))
    (hd : fs.node dest = some (.File j)) (hne : i ≠ j) :
    ∃ fs', fs.rename source dest = .ok fs' ∧ fs'.data = fs.data ∧
      ∀ m, fs'.node m = if m = dest then some (.File i) else if m = source then none
        else fs.node m := by
  unfold rename
  split
  · rename_i h
    rw [hs] at h
    cases h
  · rename_i h
    rw [hs] at h
    cases h
  · rename_i i' h
    have hsame : i' = i := by
      rw [hs] at h
      cases h
      rfl
    subst hsame
    rw [hd, if_neg (by simp), if_neg (by simpa using hne.symm)]
    refine ⟨_, rfl, rfl, fun m => ?_⟩
    refine (node_enter _ _ _ _ _ m).trans ?_
    by_cases hm : m = dest
    · rw [if_pos hm, if_pos hm]
    · rw [if_neg hm, if_neg hm, node_drop, node_drop, if_neg hm]

theorem node_of_mem {n : N} {node : Node} (h : (n, node) ∈ fs.dir) : fs.node n = some node := by
  have hfound : Table.lookup Prod.fst n fs.dir = some (n, node) :=
    Table.lookup_of_mem fs.distinct h
  rw [Files.node, hfound]
  rfl

-- The links of an inode are the names that lead to it.
theorem exists_names (fs : Files N) (i : Nat) : ∃ names : List N, names.Nodup ∧
    (∀ m, fs.node m = some (.File i) ↔ m ∈ names) ∧ fs.nlink i = names.length := by
  refine ⟨(fs.dir.filter fun entry => entry.2 = .File i).map Prod.fst,
    (List.filter_sublist.map Prod.fst).nodup fs.distinct, ?_, ?_⟩
  · intro m
    constructor
    · intro hm
      exact List.mem_map.mpr ⟨(m, .File i), List.mem_filter.mpr ⟨node_mem hm, by simp⟩, rfl⟩
    · intro hm
      obtain ⟨⟨n, node⟩, hentry, rfl⟩ := List.mem_map.mp hm
      obtain ⟨hmem, hnode⟩ := List.mem_filter.mp hentry
      rw [node_of_mem hmem]
      simpa using hnode
  · rw [nlink, List.countP_eq_length_filter, List.length_map]

theorem nlink_eq {i : Nat} {names : List N} (hnodup : names.Nodup)
    (h : ∀ m, fs.node m = some (.File i) ↔ m ∈ names) : fs.nlink i = names.length := by
  obtain ⟨names', hnodup', hnames, hlen⟩ := exists_names fs i
  rw [hlen]
  exact ((List.perm_ext_iff_of_nodup hnodup' hnodup).mpr fun m => by rw [← hnames, h]).length_eq

theorem nlink_congr {i : Nat}
    (h : ∀ m, fs'.node m = some (.File i) ↔ fs.node m = some (.File i)) :
    fs'.nlink i = fs.nlink i := by
  obtain ⟨names, hnodup, hnames, hlen⟩ := exists_names fs i
  rw [hlen]
  exact nlink_eq hnodup fun m => (h m).trans (hnames m)

theorem content_file {n : N} {i : Nat} (h : fs.node n = some (.File i)) :
    fs.content n = some (fs.data i) := by
  rw [content, h]

theorem content_some {n : N} {bytes : Bytes} (h : fs.content n = some bytes) :
    ∃ i, fs.node n = some (.File i) ∧ fs.data i = bytes := by
  unfold content at h
  split at h
  · rename_i i hi
    cases h
    exact ⟨i, hi, rfl⟩
  · cases h

end Nodes

-- A new inode and the names that lead to it; all else is as in `base`.
structure Adds (base files : Files N) (names : List N) : Prop where
  node : ∀ m, files.node m = if m ∈ names then some (.File base.next) else base.node m
  data : ∀ i, i < base.next → files.data i = base.data i
  next : files.next = base.next + 1

section Adds

variable {base files files' : Files N} {names : List N}

theorem adds_create {n : N} {k : Nat} (h : base.create n = .ok (k, files)) :
    k = base.next ∧ Adds base files [n] := by
  obtain ⟨rfl, -, hdata, hnext, hnode⟩ := create_ok h
  refine ⟨rfl, ⟨fun m => ?_, fun i hi => ?_, hnext⟩⟩
  · simpa using hnode m
  · rw [hdata, Function.update_of_ne (by omega)]

theorem Adds.store (h : Adds base files names) (bytes : Bytes) :
    Adds base (files.store base.next bytes) names where
  node := h.node
  data i hi := by rw [data_store_of_ne _ (by omega), h.data i hi]
  next := h.next

theorem Adds.link {source dest : N} (h : Adds base files names) (hsource : source ∈ names)
    (hlink : files.link source dest = .ok files') :
    Adds base files' (dest :: names) ∧ files'.data = files.data := by
  obtain ⟨i, hi, -, hdata, hnext, hnode⟩ := link_ok hlink
  rw [h.node source, if_pos hsource] at hi
  cases hi
  refine ⟨⟨fun m => ?_, fun i hi => by rw [hdata, h.data i hi], by rw [hnext, h.next]⟩, hdata⟩
  rw [hnode m, h.node m]
  by_cases hm : m = dest
  · simp [hm]
  · simp [hm]

-- The last name goes again.
theorem Adds.drop {n : N} (h : Adds base files (names ++ [n])) (hn : n ∉ names)
    (hbase : base.node n = none) : Adds base (files.drop n) names where
  node m := by
    rw [node_drop, h.node m]
    by_cases hm : m = n
    · rw [if_pos hm, hm, if_neg hn, hbase]
    · simp [hm]
  data i hi := h.data i hi
  next := h.next

theorem Adds.nlink_new (h : Adds base files names) (hnodup : names.Nodup) :
    files.nlink base.next = names.length := by
  apply nlink_eq hnodup
  intro m
  rw [h.node m]
  constructor
  · intro hm
    by_contra hmem
    rw [if_neg hmem] at hm
    exact absurd (node_bound hm) (Nat.lt_irrefl _)
  · intro hmem
    rw [if_pos hmem]

theorem Adds.content (h : Adds base files names) {n : N} (hn : n ∉ names) :
    files.content n = base.content n := by
  unfold Files.content
  rw [h.node n, if_neg hn]
  cases hnode : base.node n with
  | none => rfl
  | some node =>
      cases node with
      | File i => simp only [h.data i (node_bound hnode)]
      | Other => rfl

end Adds

-- `n` is the inode's one name.
def Sole (fs : Files N) (n : N) (i : Nat) : Prop :=
  fs.node n = some (.File i) ∧ ∀ m, fs.node m = some (.File i) → m = n

theorem sole_of_nlink {fs : Files N} {n : N} {i : Nat} (hn : fs.node n = some (.File i))
    (h : fs.nlink i = 1) : fs.Sole n i := by
  refine ⟨hn, fun m hm => ?_⟩
  have hpair := node_mem hn
  have hother := node_mem hm
  -- Two names would be two entries of the list.
  by_contra hne
  have hsub : [(n, Node.File i), (m, Node.File i)].Subperm
      (fs.dir.filter fun entry => entry.2 = .File i) := by
    apply List.subperm_of_subset
    · simp only [List.nodup_cons, List.mem_singleton, Prod.mk.injEq, and_true, List.not_mem_nil,
        not_false_eq_true, List.nodup_nil]
      exact fun he => hne he.symm
    · intro entry hentry
      simp only [List.mem_cons, List.not_mem_nil, or_false] at hentry
      rcases hentry with rfl | rfl
      · exact List.mem_filter.mpr ⟨hpair, by simp⟩
      · exact List.mem_filter.mpr ⟨hother, by simp⟩
  have hlen := hsub.length_le
  rw [nlink, List.countP_eq_length_filter] at h
  simp only [List.length_cons, List.length_nil] at hlen
  omega

theorem Sole.store {fs : Files N} {n : N} {i : Nat} (h : fs.Sole n i) (j : Nat) (bytes : Bytes) :
    (fs.store j bytes).Sole n i := h

-- What others may do while the names in `priv` are one program's own: leave those
-- alone, make new files, move public names about, and never write into a file in place.
structure Apart (priv : N → Prop) (fs fs' : Files N) : Prop where
  names : ∀ n, priv n → fs'.node n = fs.node n
  data : ∀ i, i < fs.next → fs'.data i = fs.data i
  next : fs.next ≤ fs'.next
  links : ∀ n i, ¬priv n → fs'.node n = some (.File i) → i < fs.next →
    ∃ m, ¬priv m ∧ fs.node m = some (.File i)

theorem Apart.refl (priv : N → Prop) (fs : Files N) : Apart priv fs fs where
  names _ _ := rfl
  data _ _ := rfl
  next := Nat.le_refl _
  links n _ hn h _ := ⟨n, hn, h⟩

theorem Apart.trans {priv : N → Prop} {fs fs' fs'' : Files N} (h : Apart priv fs fs')
    (h' : Apart priv fs' fs'') : Apart priv fs fs'' where
  names n hn := (h'.names n hn).trans (h.names n hn)
  data i hi := (h'.data i (Nat.lt_of_lt_of_le hi h.next)).trans (h.data i hi)
  next := Nat.le_trans h.next h'.next
  links n i hn hlink hi := by
    obtain ⟨m, hm, hlink'⟩ := h'.links n i hn hlink (Nat.lt_of_lt_of_le hi h.next)
    exact h.links m i hm hlink' hi

-- Whoever leaves more names alone leaves fewer alone.
theorem Apart.mono {priv priv' : N → Prop} {fs fs' : Files N} (h : Apart priv' fs fs')
    (hle : ∀ n, priv n → priv' n) : Apart priv fs fs' where
  names n hn := h.names n (hle n hn)
  data := h.data
  next := h.next
  links n i hn hlink hi := by
    by_cases hn' : priv' n
    · exact ⟨n, hn, by rw [← h.names n hn']; exact hlink⟩
    · obtain ⟨m, hm, hlink'⟩ := h.links n i hn' hlink hi
      exact ⟨m, fun hm' => hm (hle m hm'), hlink'⟩

section Apart

variable {priv : N → Prop} {fs fs' : Files N} (h : Apart priv fs fs')

include h

theorem Apart.content {n : N} (hn : priv n) : fs'.content n = fs.content n := by
  unfold Files.content
  rw [h.names n hn]
  cases hnode : fs.node n with
  | none => rfl
  | some node =>
      cases node with
      | File => simp only [h.data _ (node_bound hnode)]
      | Other => rfl

theorem Apart.sole {n : N} {i : Nat} (hn : priv n) (hs : fs.Sole n i) : fs'.Sole n i := by
  refine ⟨by rw [h.names n hn]; exact hs.1, fun m hm => ?_⟩
  by_cases hp : priv m
  · rw [h.names m hp] at hm
    exact hs.2 m hm
  · obtain ⟨m', hm', hlink⟩ := h.links m i hp hm (node_bound hs.1)
    exact absurd (hs.2 m' hlink ▸ hn) hm'

end Apart

-- The entry at `n`, if there is one, stays, and so do its contents.
def Preserves (n : N) (fs fs' : Files N) : Prop :=
  ∀ node, fs.node n = some node →
    fs'.node n = some node ∧ ∀ i, node = .File i → fs'.data i = fs.data i

section Preserves

variable {fs fs' : Files N} {n : N}

theorem Preserves.refl (n : N) (fs : Files N) : Preserves n fs fs := fun _ h => ⟨h, fun _ _ => rfl⟩

theorem Preserves.content (h : Preserves n fs fs') {bytes : Bytes}
    (hc : fs.content n = some bytes) : fs'.content n = some bytes := by
  obtain ⟨i, hi, hdata⟩ := content_some hc
  obtain ⟨hnode, hsame⟩ := h _ hi
  rw [content_file hnode, hsame i rfl, hdata]

theorem preserves_link {source dest : N} (h : fs.link source dest = .ok fs') :
    Preserves n fs fs' := by
  obtain ⟨i, -, hd, hdata, -, hnode⟩ := link_ok h
  intro node hn
  refine ⟨?_, fun j _ => by rw [hdata]⟩
  rw [hnode n, if_neg, hn]
  rintro rfl
  rw [hd] at hn
  cases hn

theorem preserves_unlink {m : N} (hne : n ≠ m) (h : fs.unlink m = .ok fs') :
    Preserves n fs fs' := by
  obtain ⟨hdata, -, hnode⟩ := unlink_ok h
  intro node hn
  exact ⟨by rw [hnode n, if_neg hne, hn], fun j _ => by rw [hdata]⟩

theorem preserves_sweep {gone : N → Bool} (h : gone n = false) :
    Preserves n fs (fs.sweep gone) :=
  fun _ hn => ⟨by rw [node_sweep fs gone h, hn], fun _ _ => rfl⟩

theorem preserves_create {m : N} {i : Nat} (h : fs.create m = .ok (i, fs')) :
    Preserves n fs fs' := by
  obtain ⟨-, hm, hdata, -, hnode⟩ := create_ok h
  intro node hn
  refine ⟨?_, ?_⟩
  · rw [hnode n, if_neg, hn]
    rintro rfl
    rw [hm] at hn
    cases hn
  · rintro j rfl
    have := node_bound hn
    rw [hdata, Function.update_of_ne (by omega)]

theorem preserves_store {i : Nat} (hi : fs.node n ≠ some (.File i)) (bytes : Bytes) :
    Preserves n fs (fs.store i bytes) := by
  intro node hn
  refine ⟨hn, ?_⟩
  rintro j rfl
  refine data_store_of_ne fs ?_ bytes
  rintro rfl
  exact hi hn

-- A write into a file with one name is no business of any other name.
theorem Sole.preserves_store {m : N} {i : Nat} (hs : fs.Sole m i) (hne : n ≠ m) (bytes : Bytes) :
    Preserves n fs (fs.store i bytes) :=
  Files.preserves_store (fun hn => hne (hs.2 n hn)) bytes

end Preserves

end Files

end Mediaops
