import Mathlib.Data.List.Basic
import Mathlib.Data.List.Nodup

namespace Mediaops.FileTree

-- Trees of directories with symlinks in them, and the walks of the kernel over them.

-- A piece between the slashes of a path: empty or `.`, `..`, or a name.
inductive Step (N : Type) where
  | Here
  | Up
  | Enter (name : N)
  deriving DecidableEq, Repr

-- A path as it is spelled. The empty path has no step.
structure Route (N : Type) where
  absolute : Bool
  steps : List (Step N)
  deriving DecidableEq, Repr

inductive Component (N : Type) where
  | RootDir
  | CurDir
  | ParentDir
  | Normal (name : N)
  deriving DecidableEq, Repr

-- The entries of a directory in the order in which they are read.
inductive Tree (N I : Type) where
  | Nil
  | File (name : N) (info : I) (rest : Tree N I)
  | Dir (name : N) (readable : Bool) (children rest : Tree N I)
  | Symlink (name : N) (target : Route N) (rest : Tree N I)
  | Other (name : N) (rest : Tree N I)

inductive Found (N I : Type) where
  | File (info : I)
  | Dir (readable : Bool) (children : Tree N I)
  | Symlink (target : Route N)
  | Other

inductive Fault where
  | NotFound | NotADirectory | TooManyLinks
  deriving DecidableEq, Repr

section Routes

variable {N : Type}

def Step.component : Step N → Option (Component N)
  | Here => none
  | Up => some .ParentDir
  | Enter name => some (.Normal name)

def Component.name : Component N → Option N
  | Normal name => some name
  | _ => none

namespace Route

-- Only a `.` that a relative path starts with is kept.
def components (route : Route N) : List (Component N) :=
  (if route.absolute then [.RootDir]
   else match route.steps with
    | .Here :: _ => [.CurDir]
    | _ => []) ++ route.steps.filterMap Step.component

def names (route : Route N) : List N := route.components.filterMap Component.name

-- The path that goes through these names and nowhere else.
def through (absolute : Bool) (names : List N) : Route N := ⟨absolute, names.map .Enter⟩

theorem components_through (absolute : Bool) (names : List N) :
    (through absolute names).components =
      (if absolute then [.RootDir] else []) ++ names.map .Normal := by
  have hsteps : (names.map Step.Enter).filterMap Step.component = names.map .Normal := by
    induction names with
    | nil => rfl
    | cons name rest ih => simpa [Step.component] using ih
  unfold through components
  rw [hsteps]
  cases absolute with
  | true => rfl
  | false => cases names <;> rfl

theorem names_through (absolute : Bool) (names : List N) :
    (through absolute names).names = names := by
  have hnormal : (names.map Component.Normal).filterMap Component.name = names := by
    induction names with
    | nil => rfl
    | cons name rest ih => simpa [Component.name] using ih
  unfold Route.names
  rw [components_through, List.filterMap_append, hnormal]
  cases absolute <;> rfl

end Route

end Routes

variable {N I : Type}

def Tree.names : Tree N I → List N
  | Nil => []
  | File name _ rest => name :: rest.names
  | Dir name _ _ rest => name :: rest.names
  | Symlink name _ rest => name :: rest.names
  | Other name rest => name :: rest.names

-- No directory has two entries of one name.
def Tree.Distinct : Tree N I → Prop
  | Nil => True
  | File name _ rest => name ∉ rest.names ∧ rest.Distinct
  | Dir name _ children rest => name ∉ rest.names ∧ children.Distinct ∧ rest.Distinct
  | Symlink name _ rest => name ∉ rest.names ∧ rest.Distinct
  | Other name rest => name ∉ rest.names ∧ rest.Distinct

-- Every directory can be read, and every file that is to be opened.
def Tree.Readable (opens : I → Bool) : Tree N I → Prop
  | Nil => True
  | File _ info rest => opens info = true ∧ rest.Readable opens
  | Dir _ readable children rest =>
      (readable = true ∧ children.Readable opens) ∧ rest.Readable opens
  | Symlink _ _ rest => rest.Readable opens
  | Other _ rest => rest.Readable opens

def Found.Distinct : Found N I → Prop
  | Dir _ children => children.Distinct
  | _ => True

def Found.Readable (opens : I → Bool) : Found N I → Prop
  | File info => opens info = true
  | Dir readable children => readable = true ∧ children.Readable opens
  | _ => True

def Tree.entries : Tree N I → List (Found N I)
  | Nil => []
  | File _ info rest => .File info :: rest.entries
  | Dir _ readable children rest => .Dir readable children :: rest.entries
  | Symlink _ target rest => .Symlink target :: rest.entries
  | Other _ rest => .Other :: rest.entries

-- The files of a tree with the names that lead to them through directories.
def Tree.files : Tree N I → List (List N × I)
  | Nil => []
  | File name info rest => ([name], info) :: rest.files
  | Dir name _ children rest =>
      children.files.map (fun file => (name :: file.1, file.2)) ++ rest.files
  | Symlink _ _ rest => rest.files
  | Other _ rest => rest.files

variable [DecidableEq N]

def Tree.lookup (wanted : N) : Tree N I → Option (Found N I)
  | Nil => none
  | File name info rest => if name = wanted then some (.File info) else rest.lookup wanted
  | Dir name readable children rest =>
      if name = wanted then some (.Dir readable children) else rest.lookup wanted
  | Symlink name target rest => if name = wanted then some (.Symlink target) else rest.lookup wanted
  | Other name rest => if name = wanted then some .Other else rest.lookup wanted

-- What the names lead to, through directories and no symlink.
def Found.at : Found N I → List N → Option (Found N I)
  | found, [] => some found
  | .Dir _ children, name :: rest =>
      match children.lookup name with
      | some next => next.at rest
      | none => none
  | _, _ :: _ => none

def Found.isSymlink : Found N I → Bool
  | Symlink _ => true
  | _ => false

section Walks

variable (fs : Found N I)

-- The kernel's walk from a directory. What is left of the way after a symlink goes
-- on with its target.
def walk (expand : List N → List (Step N) → Except Fault (List N)) :
    List N → List (Step N) → Except Fault (List N)
  | dir, [] => pure dir
  | dir, .Here :: rest => walk expand dir rest
  | dir, .Up :: rest => walk expand dir.dropLast rest
  | dir, .Enter name :: rest =>
      match fs.at (dir ++ [name]) with
      | none => throw .NotFound
      | some (.Symlink target) =>
          expand (if target.absolute then [] else dir) (target.steps ++ rest)
      | some (.Dir _ _) => walk expand (dir ++ [name]) rest
      | some _ => if rest = [] then pure (dir ++ [name]) else throw .NotADirectory

-- A walk that may still meet so many symlinks.
def expand : Nat → List N → List (Step N) → Except Fault (List N)
  | 0 => fun _ _ => throw .TooManyLinks
  | links + 1 => walk fs (expand links)

variable (links : Nat)

-- `realpath`
def canonicalize (cwd : List N) (path : Route N) : Except Fault (List N) :=
  if path.absolute = false ∧ path.steps = [] then throw .NotFound
  else walk fs (expand fs links) (if path.absolute then [] else cwd) path.steps

-- `lstat` of an absolute path: all but the last name is followed.
def lstat (path : List N) : Except Fault (Found N I) :=
  match path.getLast? with
  | none => pure fs
  | some name => do
      let dir ← walk fs (expand fs links) [] (path.dropLast.map .Enter)
      match fs.at (dir ++ [name]) with
      | some found => pure found
      | none => throw .NotFound

end Walks

section At

variable {fs : Found N I}

@[simp] theorem Found.at_nil (found : Found N I) : found.at [] = some found := by
  cases found <;> rfl

theorem Found.at_append (found : Found N I) (front rest : List N) :
    found.at (front ++ rest) = (found.at front).bind (·.at rest) := by
  induction front generalizing found with
  | nil => simp
  | cons name front ih =>
      cases found with
      | Dir readable children =>
          rw [List.cons_append, Found.at, Found.at]
          cases children.lookup name with
          | none => rfl
          | some next => exact ih next
      | _ => rfl

-- A directory at the names.
def IsDir (fs : Found N I) (names : List N) : Prop :=
  ∃ readable children, fs.at names = some (.Dir readable children)

-- Something at the names that is no symlink.
def IsReal (fs : Found N I) (names : List N) : Prop :=
  ∃ found, fs.at names = some found ∧ found.isSymlink = false

theorem IsDir.real {names : List N} (h : IsDir fs names) : IsReal fs names := by
  obtain ⟨readable, children, hat⟩ := h
  exact ⟨_, hat, rfl⟩

theorem isDir_front {front rest : List N} {found : Found N I}
    (h : fs.at (front ++ rest) = some found) (hne : rest ≠ []) : IsDir fs front := by
  obtain ⟨name, rest, rfl⟩ := List.exists_cons_of_ne_nil hne
  rw [Found.at_append] at h
  obtain ⟨above, habove, hat⟩ := Option.bind_eq_some_iff.mp h
  cases above with
  | Dir readable children => exact ⟨readable, children, habove⟩
  | _ => cases hat

end At

section Walks

variable {fs : Found N I}

-- Where no symlink is met the walk goes through the names.
theorem walk_through {next : List N → List (Step N) → Except Fault (List N)}
    {names dir : List N} (h : IsReal fs (dir ++ names)) :
    walk fs next dir (names.map .Enter) = .ok (dir ++ names) := by
  induction names generalizing dir with
  | nil => simp [walk, pure, Except.pure]
  | cons name rest ih =>
      have hsplit : dir ++ name :: rest = (dir ++ [name]) ++ rest := by simp
      rw [List.map_cons, walk]
      by_cases hrest : rest = []
      · subst hrest
        obtain ⟨found, hat, hreal⟩ := h
        rw [hat]
        cases found with
        | Symlink target => cases hreal
        | _ => rfl
      · obtain ⟨found, hat, -⟩ := id h
        rw [hsplit] at hat h ⊢
        obtain ⟨readable, children, hdir⟩ := isDir_front hat hrest
        rw [hdir]
        exact ih h

theorem walk_from_top {next : List N → List (Step N) → Except Fault (List N)} {names : List N}
    (h : IsReal fs names) : walk fs next [] (names.map .Enter) = .ok names :=
  walk_through (show IsReal fs ([] ++ names) from h)

theorem canonicalize_through {links : Nat} {cwd names : List N} (h : IsReal fs names) :
    canonicalize fs links cwd (.through true names) = .ok names :=
  walk_from_top h

theorem lstat_below {links : Nat} {dir : List N} {name : N} (h : IsReal fs dir) :
    lstat fs links (dir ++ [name]) = (fs.at (dir ++ [name])).elim (.error .NotFound) .ok := by
  unfold lstat
  rw [List.getLast?_concat, List.dropLast_concat]
  have hwalk : walk fs (expand fs links) [] (dir.map .Enter) = .ok dir := walk_from_top h
  rw [hwalk]
  simp only [bind, Except.bind]
  cases fs.at (dir ++ [name]) <;> rfl

theorem lstat_real {links : Nat} {names : List N} {found : Found N I}
    (h : fs.at names = some found) : lstat fs links names = .ok found := by
  rcases List.eq_nil_or_concat names with rfl | ⟨dir, name, rfl⟩
  · rw [Found.at_nil] at h
    cases h
    rfl
  · rw [List.concat_eq_append] at h ⊢
    rw [lstat_below (isDir_front h (by simp)).real, h]
    rfl

end Walks

section Files

variable {tree : Tree N I}

-- The first name of each way is an entry's.
omit [DecidableEq N] in
theorem files_cons {tree : Tree N I} {file : List N × I} (h : file ∈ tree.files) :
    ∃ name rest, file.1 = name :: rest ∧ name ∈ tree.names := by
  induction tree with
  | Nil => cases h
  | File name info rest ih =>
      rcases List.mem_cons.mp h with rfl | h
      · exact ⟨name, [], rfl, List.mem_cons_self⟩
      · obtain ⟨first, others, hfile, hmem⟩ := ih h
        exact ⟨first, others, hfile, List.mem_cons_of_mem _ hmem⟩
  | Dir name readable children rest _ ih =>
      rcases List.mem_append.mp h with h | h
      · obtain ⟨below, -, rfl⟩ := List.mem_map.mp h
        exact ⟨name, below.1, rfl, List.mem_cons_self⟩
      · obtain ⟨first, others, hfile, hmem⟩ := ih h
        exact ⟨first, others, hfile, List.mem_cons_of_mem _ hmem⟩
  | Symlink name target rest ih =>
      obtain ⟨first, others, hfile, hmem⟩ := ih h
      exact ⟨first, others, hfile, List.mem_cons_of_mem _ hmem⟩
  | Other name rest ih =>
      obtain ⟨first, others, hfile, hmem⟩ := ih h
      exact ⟨first, others, hfile, List.mem_cons_of_mem _ hmem⟩

omit [DecidableEq N] in
theorem files_nodup {tree : Tree N I} (h : tree.Distinct) : (tree.files.map Prod.fst).Nodup := by
  have hfirst : ∀ name (rest : Tree N I) (file : List N × I), name ∉ rest.names →
      file ∈ rest.files → ∀ others, file.1 ≠ name :: others := by
    intro name rest file hname hfile others hsame
    obtain ⟨first, others', hcons, hmem⟩ := files_cons hfile
    rw [hcons, List.cons.injEq] at hsame
    exact hname (hsame.1 ▸ hmem)
  induction tree with
  | Nil => exact List.nodup_nil
  | File name info rest ih =>
      rw [Tree.files, List.map_cons, List.nodup_cons]
      refine ⟨fun hmem => ?_, ih h.2⟩
      obtain ⟨file, hfile, hsame⟩ := List.mem_map.mp hmem
      exact hfirst name rest file h.1 hfile [] hsame
  | Dir name readable children rest ihChildren ih =>
      rw [Tree.files, List.map_append, List.map_map]
      refine List.Nodup.append ?_ (ih h.2.2) ?_
      · have hcons : (Prod.fst ∘ fun file : List N × I => (name :: file.1, file.2)) =
            (List.cons name) ∘ Prod.fst := rfl
        rw [hcons, ← List.map_map]
        exact (ihChildren h.2.1).map (List.cons_injective)
      · intro names hhere hlater
        obtain ⟨below, -, rfl⟩ := List.mem_map.mp hhere
        obtain ⟨file, hfile, hsame⟩ := List.mem_map.mp hlater
        exact hfirst name rest file h.1 hfile below.1 hsame
  | Symlink name target rest ih => exact ih h.2
  | Other name rest ih => exact ih h.2

theorem Found.at_cons (readable : Bool) (tree : Tree N I) (name : N) (rest : List N) :
    (Found.Dir readable tree).at (name :: rest) = (tree.lookup name).bind (·.at rest) := by
  rw [Found.at]
  cases tree.lookup name <;> rfl

omit [DecidableEq N] in
theorem files_first {tree : Tree N I} {name : N} {rest : List N} {info : I}
    (h : (name :: rest, info) ∈ tree.files) : name ∈ tree.names := by
  obtain ⟨first, others, hcons, hmem⟩ := files_cons h
  cases hcons
  exact hmem

theorem files_nil {info : I} (readable : Bool) :
    ([], info) ∈ tree.files ↔ (Found.Dir readable tree).at [] = some (.File info) := by
  constructor
  · intro hmem
    obtain ⟨first, others, hcons, -⟩ := files_cons hmem
    cases hcons
  · intro hat
    cases hat

-- The files are those that names lead to, through directories and no symlink.
theorem mem_files (h : tree.Distinct) (readable : Bool) {names : List N} {info : I} :
    (names, info) ∈ tree.files ↔ (Found.Dir readable tree).at names = some (.File info) := by
  induction tree generalizing names readable with
  | Nil =>
      cases names with
      | nil => exact files_nil readable
      | cons => exact ⟨nofun, nofun⟩
  | File first found rest ih =>
      cases names with
      | nil => exact files_nil readable
      | cons name names =>
          rw [Found.at_cons, Tree.files, List.mem_cons, Tree.lookup]
          by_cases hname : first = name
          · subst hname
            rw [if_pos rfl, Option.bind_some]
            have hnot : (first :: names, info) ∉ rest.files := fun hmem => h.1 (files_first hmem)
            cases names with
            | nil => simp [hnot, eq_comm]
            | cons => simp [hnot, Found.at]
          · rw [if_neg hname, ← Found.at_cons readable rest, ← ih h.2]
            simp [Ne.symm hname]
  | Dir first readable' children rest ihChildren ih =>
      cases names with
      | nil => exact files_nil readable
      | cons name names =>
          rw [Found.at_cons, Tree.files, List.mem_append, Tree.lookup]
          by_cases hname : first = name
          · subst hname
            rw [if_pos rfl, Option.bind_some, ← ihChildren h.2.1 readable']
            have hnot : (first :: names, info) ∉ rest.files := fun hmem => h.1 (files_first hmem)
            simp [hnot]
          · rw [if_neg hname, ← Found.at_cons readable rest, ← ih h.2.2]
            simp [hname]
  | Symlink first target rest ih =>
      cases names with
      | nil => exact files_nil readable
      | cons name names =>
          rw [Found.at_cons, Tree.files, Tree.lookup]
          by_cases hname : first = name
          · subst hname
            have hnot : (first :: names, info) ∉ rest.files := fun hmem => h.1 (files_first hmem)
            cases names <;> simp [hnot, Found.at]
          · rw [if_neg hname, ← Found.at_cons readable rest, ← ih h.2]
  | Other first rest ih =>
      cases names with
      | nil => exact files_nil readable
      | cons name names =>
          rw [Found.at_cons, Tree.files, Tree.lookup]
          by_cases hname : first = name
          · subst hname
            have hnot : (first :: names, info) ∉ rest.files := fun hmem => h.1 (files_first hmem)
            cases names <;> simp [hnot, Found.at]
          · rw [if_neg hname, ← Found.at_cons readable rest, ← ih h.2]

-- What holds of a directory and of all that it leads to.
theorem Found.at_of {P : Found N I → Prop}
    (hP : ∀ readable tree name found, P (.Dir readable tree) → tree.lookup name = some found →
      P found) {fs found : Found N I} {names : List N} (h : P fs) (hat : fs.at names = some found) :
    P found := by
  induction names generalizing fs with
  | nil =>
      rw [Found.at_nil] at hat
      cases hat
      exact h
  | cons name rest ih =>
      cases fs with
      | Dir readable tree =>
          rw [Found.at_cons] at hat
          obtain ⟨next, hlookup, hat⟩ := Option.bind_eq_some_iff.mp hat
          exact ih (hP readable tree name next h hlookup) hat
      | _ => cases hat

-- What a directory leads to is one of its entries.
theorem lookup_mem {tree : Tree N I} {name : N} {found : Found N I}
    (h : tree.lookup name = some found) : found ∈ tree.entries := by
  induction tree with
  | Nil => cases h
  | _ =>
      rw [Tree.lookup] at h
      split at h
      · cases h
        exact List.mem_cons_self
      · rename_i ih _
        exact List.mem_cons_of_mem _ (ih h)

theorem distinct_at {fs found : Found N I} {names : List N} (h : fs.Distinct)
    (hat : fs.at names = some found) : found.Distinct := by
  refine Found.at_of ?_ h hat
  intro readable tree name found htree hlookup
  have hmem := lookup_mem hlookup
  have hdistinct : tree.Distinct := htree
  clear htree hlookup
  induction tree with
  | Nil => cases hmem
  | Dir first readable children rest _ ih =>
      rcases List.mem_cons.mp hmem with rfl | hmem
      · exact hdistinct.2.1
      · exact ih hmem hdistinct.2.2
  | _ =>
      rcases List.mem_cons.mp hmem with rfl | hmem
      · trivial
      · rename_i ih _
        exact ih hmem hdistinct.2

theorem readable_at {opens : I → Bool} {fs found : Found N I} {names : List N}
    (h : fs.Readable opens) (hat : fs.at names = some found) : found.Readable opens := by
  refine Found.at_of ?_ h hat
  intro readable tree name found htree hlookup
  have hmem := lookup_mem hlookup
  have hreadable : tree.Readable opens := htree.2
  clear htree hlookup
  induction tree with
  | Nil => cases hmem
  | File first info rest ih =>
      rcases List.mem_cons.mp hmem with rfl | hmem
      · exact hreadable.1
      · exact ih hmem hreadable.2
  | Dir first readable children rest _ ih =>
      rcases List.mem_cons.mp hmem with rfl | hmem
      · exact hreadable.1
      · exact ih hmem hreadable.2
  | _ =>
      rcases List.mem_cons.mp hmem with rfl | hmem
      · trivial
      · rename_i ih _
        exact ih hmem hreadable

end Files

end Mediaops.FileTree
