import Mediaops.Library.Text
import Mathlib.Logic.Function.Basic
import Mathlib.Data.List.Nodup

namespace Mediaops.Sql

-- A database engine as a program that changes its schema sees it: tables with
-- their definitions and rows, indexes and the version marker. Each statement
-- commits by itself. A run keeps the databases it passes through, so that what
-- a process leaves behind when it dies between two statements can be named.

inductive Value where
  | Null
  | Integer (n : Int)
  | Text (text : Mediaops.Text)
  deriving DecidableEq, Repr

-- A column is NOT NULL unless it is listed as nullable. `rowid` is an INTEGER
-- PRIMARY KEY: a row inserted without one gets the next number.
structure Definition (C : Type) where
  columns : List C
  nullable : List C := []
  primaryKey : List C
  rowid : Option C := none
  deriving DecidableEq, Repr

-- Rows give a value to every name; only those of the table's columns count.
structure Table (C : Type) where
  definition : Definition C
  rows : List (C → Value) := []

-- A unique index leaves out NULL and, where it is partial, one more value.
structure Index (T C I : Type) where
  name : I
  table : T
  column : C
  unique : Bool := false
  leftOut : Option Value := none
  deriving DecidableEq

structure Db (T C I : Type) where
  userVersion : Int := 0
  tables : T → Option (Table C) := fun _ => none
  indexes : List (Index T C I) := []

inductive Error (T C I : Type) where
  | NoSuchTable (t : T)
  | TableExists (t : T)
  | NoSuchColumn
  | DuplicateColumn (c : C)
  | IndexExists (name : I)
  | Constraint
  deriving DecidableEq, Repr

inductive Statement (T C I : Type) where
  | CreateTable (t : T) (definition : Definition C)
  | DropTable (t : T)
  | RenameTable (t u : T)
  | AddColumn (t : T) (c : C) (default : Value)
  | InsertSelect (into : T) (columns : List C) (source : T)
  | CreateIndex (index : Index T C I)
  | SetUserVersion (n : Int)

section Rows

variable {T C I : Type}

-- What the values of a unique index must keep apart.
def Index.indexed (index : Index T C I) (table : Table C) : List Value :=
  (table.rows.map fun row => row index.column).filter fun value =>
    value ≠ .Null && some value ≠ index.leftOut

def Index.Admits (index : Index T C I) (table : Table C) : Prop :=
  index.unique = true → (index.indexed table).Nodup

instance (index : Index T C I) (table : Table C) : Decidable (index.Admits table) :=
  inferInstanceAs (Decidable (_ → _))

variable [DecidableEq C]

-- The rows keep to NOT NULL and to the primary key.
structure Table.Valid (table : Table C) : Prop where
  notNull : ∀ row ∈ table.rows, ∀ c ∈ table.definition.columns,
    row c = .Null → c ∈ table.definition.nullable
  keyed : (table.rows.map fun row => table.definition.primaryKey.map row).Nodup

instance (table : Table C) : Decidable table.Valid :=
  decidable_of_iff
    ((∀ row ∈ table.rows, ∀ c ∈ table.definition.columns,
        row c = .Null → c ∈ table.definition.nullable) ∧
      (table.rows.map fun row => table.definition.primaryKey.map row).Nodup)
    ⟨fun h => ⟨h.1, h.2⟩, fun h => ⟨h.1, h.2⟩⟩

def topKey (rows : List (C → Value)) (c : C) : Int :=
  rows.foldl (fun top row => match row c with
    | .Integer n => max top n
    | _ => top) 0

def Table.insert (table : Table C) (columns : List C) (rows : List (C → Value)) : Table C :=
  { table with
    rows := table.rows ++ rows.mapIdx fun i row c =>
      if c ∈ columns then row c
      else if table.definition.rowid = some c then .Integer (topKey table.rows c + 1 + i)
      else .Null }

theorem map_mapIdx {α β γ : Type} {f : Nat → α → β} {g : β → γ} {h : α → γ}
    (hf : ∀ i a, g (f i a) = h a) (xs : List α) : (xs.mapIdx f).map g = xs.map h := by
  apply List.ext_getElem?
  intro i
  cases hx : xs[i]? with
  | none => simp [hx]
  | some a => simp [hx, hf]

theorem nodup_map_mapIdx {α β γ : Type} {f : Nat → α → β} {g : β → γ}
    (hf : ∀ i j a b, g (f i a) = g (f j b) → i = j) (xs : List α) :
    ((xs.mapIdx f).map g).Nodup := by
  rw [List.nodup_iff_injective_get]
  intro i j hij
  apply Fin.ext
  simp only [List.get_eq_getElem, List.getElem_map, List.getElem_mapIdx] at hij
  exact hf _ _ _ _ hij

-- Copied into an empty table under fresh numbers, rows keep every constraint.
theorem Table.valid_insert {definition : Definition C} {columns : List C} {key : C}
    {rows : List (C → Value)} (hkey : definition.primaryKey = [key])
    (hrowid : definition.rowid = some key) (hfresh : key ∉ columns)
    (hcolumns : ∀ c ∈ definition.columns, c ≠ key → c ∈ columns)
    (hrows : ∀ row ∈ rows, ∀ c ∈ columns, row c ≠ .Null) :
    (({ definition } : Table C).insert columns rows).Valid where
  notNull row hrow c hc hnull := by
    simp only [Table.insert, List.nil_append, List.mem_mapIdx] at hrow
    obtain ⟨i, hi, rfl⟩ := hrow
    by_cases hk : c = key
    · subst hk
      simp [hfresh, hrowid] at hnull
    · have hin := hcolumns c hc hk
      simp only [if_pos hin] at hnull
      exact absurd hnull (hrows _ (List.getElem_mem hi) c hin)
  keyed := by
    simp only [Table.insert, List.nil_append, hkey]
    apply nodup_map_mapIdx
    intro i j a b hij
    simp [hfresh, hrowid] at hij
    omega

end Rows

section Engine

variable {T C I : Type} [DecidableEq T] [DecidableEq C] [DecidableEq I]

def Db.set (db : Db T C I) (t : T) (table : Option (Table C)) : Db T C I :=
  { db with tables := Function.update db.tables t table }

def Db.table (db : Db T C I) (t : T) : Except (Error T C I) (Table C) :=
  match db.tables t with
  | some table => .ok table
  | none => .error (.NoSuchTable t)

-- PRAGMA table_info: a missing table has no columns.
def Db.tableInfo (db : Db T C I) (t : T) : List C :=
  match db.tables t with
  | some table => table.definition.columns
  | none => []

def exec (db : Db T C I) : Statement T C I → Except (Error T C I) (Db T C I)
  | .CreateTable t definition =>
      if (db.tables t).isSome then .error (.TableExists t)
      else .ok (db.set t (some { definition }))
  | .DropTable t => do
      let _ ← db.table t
      return { db.set t none with indexes := db.indexes.filter fun index => index.table ≠ t }
  | .RenameTable t u => do
      let table ← db.table t
      if (db.tables u).isSome then .error (.TableExists u)
      else return { (db.set t none).set u (some table) with
        indexes := db.indexes.map fun index =>
          if index.table = t then { index with table := u } else index }
  | .AddColumn t c default => do
      let table ← db.table t
      if c ∈ table.definition.columns then .error (.DuplicateColumn c)
      else return db.set t (some {
        definition := { table.definition with columns := table.definition.columns ++ [c] }
        rows := table.rows.map fun row => Function.update row c default })
  | .InsertSelect into columns source => do
      let target ← db.table into
      let table ← db.table source
      if columns.all fun c => c ∈ target.definition.columns && c ∈ table.definition.columns then
        let filled := target.insert columns table.rows
        if filled.Valid ∧ ∀ index ∈ db.indexes, index.table = into → index.Admits filled then
          return db.set into (some filled)
        else .error .Constraint
      else .error .NoSuchColumn
  | .CreateIndex index => do
      let table ← db.table index.table
      if db.indexes.any fun other => other.name = index.name then .error (.IndexExists index.name)
      else if index.column ∉ table.definition.columns then .error .NoSuchColumn
      else if index.Admits table then return { db with indexes := db.indexes ++ [index] }
      else .error .Constraint
  | .SetUserVersion n => .ok { db with userVersion := n }

end Engine

-- The databases after each statement of a run, the one it leaves and how it ends.
structure Ran (σ ε α : Type) where
  states : List σ := []
  final : σ
  result : Except ε α

def Session (σ ε α : Type) : Type := σ → Ran σ ε α

namespace Session

variable {σ ε α β : Type}

instance : Monad (Session σ ε) where
  pure a := fun s => { final := s, result := .ok a }
  bind m f := fun s =>
    let first := m s
    match first.result with
    | .ok a =>
        let rest := f a first.final
        { rest with states := first.states ++ rest.states }
    | .error e => { first with result := .error e }

def fail (e : ε) : Session σ ε α := fun s => { final := s, result := .error e }

def read (f : σ → Except ε α) : Session σ ε α := fun s =>
  { states := [s], final := s, result := f s }

def execute (change : σ → Except ε σ) : Session σ ε Unit := fun s =>
  match change s with
  | .ok s' => { states := [s'], final := s', result := .ok () }
  | .error e => { final := s, result := .error e }

@[simp] theorem pure_apply (a : α) (s : σ) :
    (pure a : Session σ ε α) s = { final := s, result := .ok a } := rfl

@[simp] theorem fail_apply (e : ε) (s : σ) :
    (fail e : Session σ ε α) s = { final := s, result := .error e } := rfl

@[simp] theorem read_apply (f : σ → Except ε α) (s : σ) :
    read f s = { states := [s], final := s, result := f s } := rfl

theorem bind_apply (m : Session σ ε α) (f : α → Session σ ε β) (s : σ) :
    (m >>= f) s = match (m s).result with
      | .ok a => { f a (m s).final with states := (m s).states ++ (f a (m s).final).states }
      | .error e => { m s with result := .error e } := rfl

theorem bind_ok {m : Session σ ε α} {f : α → Session σ ε β} {s s' : σ} {xs : List σ} {a : α}
    (h : m s = { states := xs, final := s', result := .ok a }) :
    (m >>= f) s = { f a s' with states := xs ++ (f a s').states } := by
  rw [bind_apply, h]

theorem bind_error {m : Session σ ε α} {f : α → Session σ ε β} {s s' : σ} {xs : List σ} {e : ε}
    (h : m s = { states := xs, final := s', result := .error e }) :
    (m >>= f) s = { states := xs, final := s', result := .error e } := by
  rw [bind_apply, h]

theorem execute_ok {change : σ → Except ε σ} {s s' : σ} (h : change s = .ok s') :
    execute change s = { states := [s'], final := s', result := .ok () } := by
  unfold execute; rw [h]

theorem execute_error {change : σ → Except ε σ} {s : σ} {e : ε} (h : change s = .error e) :
    execute change s = { final := s, result := .error e } := by
  unfold execute; rw [h]

end Session

-- A batch stops at its first statement that fails.
def executeBatch {σ ε S : Type} (run : σ → S → Except ε σ) : List S → Session σ ε Unit
  | [] => pure ()
  | statement :: rest => do
      Session.execute fun s => run s statement
      executeBatch run rest

end Mediaops.Sql
