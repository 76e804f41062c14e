import Mathlib.Data.List.Sort
import Mediaops.Library.Text.Utf8

namespace Mediaops.Diff

-- What the daemon checks in the nginx configuration of the edge: the fingerprint
-- of a panel's files and the `Host` header of one file.

def nul : Char := '\x00'

-- `cmp` of two names compares their bytes, which is the order of their scalar values.
def nameOrder (a b : Text × Bytes) : Prop := a.1 ≤ b.1

instance : DecidableRel nameOrder := fun a b => inferInstanceAs (Decidable (a.1 ≤ b.1))

-- What one file gives to the hash.
def fedFile (file : Text × Bytes) : Bytes := Text.asBytes file.1 ++ 0 :: file.2

-- The bytes the hasher is updated with.
def fed (files : List (Text × Bytes)) : Bytes := (files.insertionSort nameOrder).flatMap fedFile

-- `hash` is blake3 of all its updates, written in hexadecimal.
def panelFingerprint (hash : Bytes → Text) (files : List (Text × Bytes)) : Text := hash (fed files)

def needle : Text := "host $host".toList

-- `u8::is_ascii_whitespace`
def isAsciiWhitespace (b : UInt8) : Bool := b == 32 || b == 9 || b == 10 || b == 12 || b == 13

-- `;`, a space, a newline, a carriage return, a tab or `}`
def endsHost (b : UInt8) : Bool :=
  b == 59 || b == 32 || b == 10 || b == 13 || b == 9 || b == 125

-- One position of the scan. The slice `lower[i..]` is made before anything is
-- compared, so a position inside a character is a panic.
def hostAt (lower : Text) (i : Nat) : Option Bool := do
  let bytes := Text.asBytes lower
  let rest ← Text.sliceFrom lower i
  if Text.startsWith needle rest then
    let beforeOk := i = 0 ∨ isAsciiWhitespace (bytes.getD (i - 1) 0)
    let after := i + Text.byteLen needle
    let afterOk := after = bytes.length ∨ endsHost (bytes.getD after 0)
    pure (decide (beforeOk ∧ afterOk))
  else pure false

-- The scan at position `i` with `left` positions to come.
def hostFrom (lower : Text) : Nat → Nat → Option Bool
  | 0, _ => some false
  | left + 1, i => do
      if ← hostAt lower i then pure true else hostFrom lower left (i + 1)

def nginxHostOk (conf : Text) : Option Bool :=
  let lower := Text.toAsciiLowercase conf
  hostFrom lower (Text.byteLen lower + 1 - Text.byteLen needle) 0

-- A set of configuration files: every name once, none with a NUL.
structure Panel where
  files : List (Text × Bytes)
  distinct : (files.map Prod.fst).Nodup
  clean : ∀ file ∈ files, nul ∉ file.1

-- The fingerprint pins the files of this panel and no others.
def Faithful (panel : Panel) : Prop :=
  (∀ other : Panel, fed other.files = fed panel.files → other.files.Perm panel.files) ∧
    (∀ other : Panel, other.files.Perm panel.files → fed other.files = fed panel.files) ∧
    ∀ hash : Bytes → Text, Function.Injective hash → ∀ other : Panel,
      panelFingerprint hash other.files = panelFingerprint hash panel.files →
        other.files.Perm panel.files

-- Nothing in the content reads as the name of a later file with its NUL.
def Whole (name : Text) (content : Bytes) : Prop :=
  ∀ front later rest, nul ∉ later → name < later →
    content ≠ front ++ (Text.asBytes later ++ 0 :: rest)

def Unsplit (files : List (Text × Bytes)) : Prop :=
  files = [] ∨ ∃ name content, files = [(name, content)] ∧ Whole name content

section Order

instance : Std.Total nameOrder := ⟨fun a b => le_total a.1 b.1⟩

instance : IsTrans (Text × Bytes) nameOrder := ⟨fun _ _ _ h h' => le_trans (α := Text) h h'⟩

theorem sorted_perm {files other : List (Text × Bytes)} (hperm : other.Perm files)
    (hdistinct : (files.map Prod.fst).Nodup) :
    other.insertionSort nameOrder = files.insertionSort nameOrder := by
  have hsorted := (List.perm_insertionSort nameOrder other).trans
    (hperm.trans (List.perm_insertionSort nameOrder files).symm)
  refine hsorted.eq_of_pairwise ?_ (List.pairwise_insertionSort nameOrder _)
    (List.pairwise_insertionSort nameOrder _)
  intro a b ha hb hab hba
  have ha : a ∈ files := hperm.subset ((List.mem_insertionSort nameOrder).mp ha)
  have hb : b ∈ files := (List.mem_insertionSort nameOrder).mp hb
  exact List.inj_on_of_nodup_map hdistinct ha hb (le_antisymm (α := Text) hab hba)

theorem fed_perm {files other : List (Text × Bytes)} (hperm : other.Perm files)
    (hdistinct : (files.map Prod.fst).Nodup) : fed other = fed files := by
  rw [fed, fed, sorted_perm hperm hdistinct]

theorem nul_notMem {name : Text} (h : nul ∉ name) : (0 : UInt8) ∉ Text.asBytes name := by
  have hmem := Text.mem_asBytes_ascii (c := nul) (by decide) name
  exact fun hzero => h (hmem.mp hzero)

-- The first NUL of the bytes is the one after the name.
theorem cut_nul {left left' right right' : Bytes} (h : 0 ∉ left) (h' : 0 ∉ left')
    (heq : left ++ 0 :: right = left' ++ 0 :: right') : left = left' ∧ right = right' := by
  induction left generalizing left' with
  | nil =>
      cases left' with
      | nil => simpa using heq
      | cons b left' =>
          simp only [List.nil_append, List.cons_append, List.cons.injEq] at heq
          exact absurd (heq.1 ▸ List.mem_cons_self) h'
  | cons b left ih =>
      cases left' with
      | nil =>
          simp only [List.nil_append, List.cons_append, List.cons.injEq] at heq
          exact absurd (heq.1 ▸ List.mem_cons_self) h
      | cons d left' =>
          simp only [List.cons_append, List.cons.injEq] at heq
          obtain ⟨rfl, hrest⟩ := heq
          simp only [List.mem_cons, not_or] at h h'
          obtain ⟨rfl, rfl⟩ := ih h.2 h'.2 hrest
          exact ⟨rfl, rfl⟩

-- Two readings of the same bytes start with the same name.
theorem fedFile_front {a b : Text × Bytes} {left right : Bytes} (ha : nul ∉ a.1) (hb : nul ∉ b.1)
    (h : fedFile a ++ left = fedFile b ++ right) : a.1 = b.1 ∧ a.2 ++ left = b.2 ++ right := by
  simp only [fedFile, List.append_assoc, List.cons_append] at h
  obtain ⟨hname, hrest⟩ := cut_nul (nul_notMem ha) (nul_notMem hb) h
  exact ⟨Text.asBytes_injective hname, hrest⟩

end Order

section Sets

theorem fedFile_ne_nil (file : Text × Bytes) : fedFile file ≠ [] := by
  simp [fedFile]

theorem fed_nil : fed [] = [] := rfl

theorem fed_singleton (file : Text × Bytes) : fed [file] = fedFile file := by
  simp [fed]

-- Files in the order of their names are fed in that order.
theorem fed_sorted {files : List (Text × Bytes)} (h : files.Pairwise nameOrder) :
    fed files = files.flatMap fedFile := by
  rw [fed, h.insertionSort_eq]

theorem Panel.sorted_lt (panel : Panel) :
    (panel.files.insertionSort nameOrder).Pairwise fun a b => a.1 < b.1 := by
  have hperm := List.perm_insertionSort nameOrder panel.files
  have hdistinct : ((panel.files.insertionSort nameOrder).map Prod.fst).Nodup :=
    (hperm.map Prod.fst).nodup_iff.mpr panel.distinct
  refine (List.pairwise_insertionSort nameOrder panel.files).imp₂ ?_
    (List.pairwise_map.mp hdistinct)
  intro a b hle hne
  exact lt_of_le_of_ne (α := Text) hle hne

-- A panel of one file is told from every other when no name is hidden in its content.
theorem faithful_singleton {name : Text} {content : Bytes} (hname : nul ∉ name)
    (h : Whole name content) (other : Panel) (hfed : fed other.files = fed [(name, content)]) :
    other.files.Perm [(name, content)] := by
  have hperm := List.perm_insertionSort nameOrder other.files
  have hlt := other.sorted_lt
  have hclean : ∀ file ∈ other.files.insertionSort nameOrder, nul ∉ file.1 := by
    intro file hfile
    exact other.clean file (hperm.subset hfile)
  rw [fed_singleton, fed] at hfed
  cases hsorted : other.files.insertionSort nameOrder with
  | nil =>
      rw [hsorted] at hfed
      exact absurd hfed.symm (fedFile_ne_nil _)
  | cons first later =>
      rw [hsorted] at hfed hlt hclean hperm
      rw [List.flatMap_cons, ← List.append_nil (fedFile (name, content))] at hfed
      obtain ⟨hfirst, hrest⟩ := fedFile_front (hclean first List.mem_cons_self) hname hfed
      cases later with
      | nil =>
          have hsame : first = (name, content) := Prod.ext hfirst (by simpa using hrest)
          rw [hsame] at hperm
          exact hperm.symm
      | cons second later =>
          -- the second file's name would stand inside the content
          have hbefore : first.1 < second.1 :=
            (List.pairwise_cons.mp hlt).1 second List.mem_cons_self
          rw [hfirst] at hbefore
          refine absurd ?_ (h first.2 second.1 (second.2 ++ later.flatMap fedFile)
            (hclean second (by simp)) hbefore)
          simpa [fedFile] using hrest.symm

-- The last two files of a panel can be read as one.
theorem exists_merged (panel : Panel) {front : List (Text × Bytes)} {a b : Text × Bytes}
    (h : panel.files.insertionSort nameOrder = front ++ [a, b]) :
    ∃ other : Panel, fed other.files = fed panel.files ∧ ¬other.files.Perm panel.files := by
  have hperm := List.perm_insertionSort nameOrder panel.files
  have hsorted := List.pairwise_insertionSort nameOrder panel.files
  have hdistinct : ((panel.files.insertionSort nameOrder).map Prod.fst).Nodup :=
    (hperm.map Prod.fst).nodup_iff.mpr panel.distinct
  rw [h] at hperm hsorted hdistinct
  let merged := front ++ [(a.1, a.2 ++ fedFile b)]
  have hmerged : merged.Pairwise nameOrder := by
    have hfront := List.pairwise_append.mp hsorted
    refine List.pairwise_append.mpr ⟨hfront.1, List.pairwise_singleton _ _, ?_⟩
    intro file hfile last hlast
    obtain rfl := List.mem_singleton.mp hlast
    exact hfront.2.2 file hfile a List.mem_cons_self
  have hnames : (merged.map Prod.fst).Nodup := by
    refine List.Nodup.sublist ?_ hdistinct
    simp [merged]
  have hclean : ∀ file ∈ merged, nul ∉ file.1 := by
    intro file hfile
    rcases List.mem_append.mp hfile with hfile | hfile
    · exact panel.clean file (hperm.subset (by simp [hfile]))
    · obtain rfl := List.mem_singleton.mp hfile
      exact panel.clean a (hperm.subset (by simp))
  refine ⟨⟨merged, hnames, hclean⟩, ?_, fun hsame => ?_⟩
  · rw [fed_sorted hmerged, fed, h]
    simp [merged, fedFile]
  · have hlen := (hsame.trans hperm.symm).length_eq
    simp [merged] at hlen

-- A file whose content holds the name of a later file can be read as both.
theorem exists_split (panel : Panel) {name later : Text} {front rest : Bytes}
    (h : panel.files = [(name, front ++ (Text.asBytes later ++ 0 :: rest))])
    (hclean : nul ∉ later) (hlt : name < later) :
    ∃ other : Panel, fed other.files = fed panel.files ∧ ¬other.files.Perm panel.files := by
  have hname : nul ∉ name := panel.clean _ (h ▸ List.mem_cons_self)
  have hsorted : [(name, front), (later, rest)].Pairwise nameOrder := by
    simpa [nameOrder] using le_of_lt (α := Text) hlt
  have hnames : ([(name, front), (later, rest)].map Prod.fst).Nodup := by
    simpa using ne_of_lt (α := Text) hlt
  refine ⟨⟨[(name, front), (later, rest)], hnames, ?_⟩, ?_, fun hsame => ?_⟩
  · intro file hfile
    rcases List.mem_cons.mp hfile with rfl | hfile
    · exact hname
    · obtain rfl := List.mem_singleton.mp hfile
      exact hclean
  · rw [fed_sorted hsorted, h, fed_singleton]
    simp [fedFile]
  · have hlen := hsame.length_eq
    rw [h] at hlen
    simp at hlen

theorem panel_fingerprint_faithful (panel : Panel) : Faithful panel ↔ Unsplit panel.files := by
  constructor
  · intro hfaithful
    have hsplit : ¬∃ other : Panel, fed other.files = fed panel.files ∧
        ¬other.files.Perm panel.files := by
      rintro ⟨other, hfed, hother⟩
      exact hother (hfaithful.1 other hfed)
    have hperm := List.perm_insertionSort nameOrder panel.files
    rcases List.eq_nil_or_concat (panel.files.insertionSort nameOrder) with hnil | ⟨front, b, hb⟩
    · rw [hnil] at hperm
      exact Or.inl hperm.symm.eq_nil
    · rcases List.eq_nil_or_concat front with rfl | ⟨front, a, rfl⟩
      · right
        rw [hb] at hperm
        refine ⟨b.1, b.2, List.perm_singleton.mp hperm.symm, ?_⟩
        intro content later rest hclean hlt heq
        have hfiles : panel.files = [(b.1, b.2)] := List.perm_singleton.mp hperm.symm
        rw [heq] at hfiles
        exact hsplit (exists_split panel hfiles hclean hlt)
      · have hlast : panel.files.insertionSort nameOrder = front ++ [a, b] := by simpa using hb
        exact absurd (exists_merged panel hlast) hsplit
  · intro h
    have hpins : ∀ other : Panel, fed other.files = fed panel.files →
        other.files.Perm panel.files := by
      intro other hfed
      rcases h with hnil | ⟨name, content, hfiles, hwhole⟩
      · rw [hnil, fed_nil, fed, List.flatMap_eq_nil_iff] at hfed
        rw [hnil, List.perm_nil, List.eq_nil_iff_forall_not_mem]
        intro file hfile
        exact fedFile_ne_nil file (hfed file ((List.mem_insertionSort nameOrder).mpr hfile))
      · have hname : nul ∉ name := panel.clean _ (hfiles ▸ List.mem_cons_self)
        rw [hfiles] at hfed ⊢
        exact faithful_singleton hname hwhole other hfed
    refine ⟨hpins, fun other hperm => fed_perm hperm panel.distinct, ?_⟩
    intro hash hinj other hsame
    exact hpins other (hinj hsame)

-- A file whose content goes on with another file's name and a NUL.
theorem panel_fingerprint_shared :
    let pinned : List (Text × Bytes) := [("a".toList, [120]), ("b".toList, [121])]
    let changed : List (Text × Bytes) := [("a".toList, [120, 98, 0, 121])]
    (pinned.map Prod.fst).Nodup ∧ (changed.map Prod.fst).Nodup ∧
      (∀ file ∈ pinned ++ changed, nul ∉ file.1) ∧ fed changed = fed pinned ∧
      ¬changed.Perm pinned := by
  decide

end Sets

end Mediaops.Diff
