/-
Tables with foreign keys, and what a `DELETE` does to the rows that refer to what it removes.

A row gives each column a value or NULL.  A foreign key refers to a row if none of its columns is
NULL and each has the value of its counterpart (`MATCH SIMPLE`).  Once rows are removed, each
foreign key to their table acts on the rows that referred to them: `CASCADE` removes them, with
the same consequences, and `SET NULL` clears every column of the key, which a `NOT NULL` column
does not allow.
-/
import Mathlib

namespace Relational

/-- A row; `none` is NULL. -/
abbrev Row (C V : Type) : Type := C → Option V

abbrev Database (T C V : Type) : Type := T → List (Row C V)

inductive Action
  | noAction
  | cascade
  | setNull
deriving DecidableEq

/-- `FOREIGN KEY (columns) REFERENCES parent (parentColumns) ON DELETE …`. -/
structure ForeignKey (T C : Type) where
  table : T
  columns : List C
  parent : T
  parentColumns : List C
  onDelete : Action

structure Schema (T C : Type) where
  /-- `NOT NULL`. -/
  required : T → List C
  /-- `UNIQUE` and `PRIMARY KEY`. -/
  unique : T → List (List C)
  foreignKeys : List (ForeignKey T C)

/-- What a statement fails with. -/
inductive Violation
  | notNull
  | unique
  | foreignKey
  /-- Cascades deeper than was asked for. -/
  | depth
deriving DecidableEq

section

variable {T C V : Type} [DecidableEq T] [DecidableEq C] [DecidableEq V]

/-- The row refers to `parent` by the key. -/
def ForeignKey.refers (key : ForeignKey T C) (parent row : Row C V) : Bool :=
  (key.columns.zip key.parentColumns).all fun (c, p) => row c ≠ none && row c = parent p

/-- Without any of the columns. -/
def Row.clear (columns : List C) (row : Row C V) : Row C V :=
  fun c => if c ∈ columns then none else row c

namespace Database

def remove (db : Database T C V) (t : T) (p : Row C V → Bool) : Database T C V :=
  Function.update db t ((db t).filter (!p ·))

def alter (db : Database T C V) (t : T) (p : Row C V → Bool) (f : Row C V → Row C V) :
    Database T C V :=
  Function.update db t ((db t).map fun row => if p row then f row else row)

end Database

namespace Schema

/-- Two rows have the same value in each of the columns. -/
def clash (columns : List C) (a b : Row C V) : Bool :=
  columns.all fun c => a c ≠ none && a c = b c

def insert (s : Schema T C) (t : T) (row : Row C V) (db : Database T C V) :
    Except Violation (Database T C V) :=
  if (s.required t).any (row · = none) then .error .notNull
  else if (s.unique t).any fun columns => (db t).any (clash columns row) then .error .unique
  else if (s.foreignKeys.filter (·.table = t)).any fun key =>
      key.columns.all (row · ≠ none) && !(db key.parent).any (key.refers · row) then
    .error .foreignKey
  else .ok (Function.update db t (row :: db t))

/-- What a key does once `row` is gone; `delete` is the `DELETE` of a cascade. -/
def act (s : Schema T C)
    (delete : T → (Row C V → Bool) → Database T C V → Except Violation (Database T C V))
    (row : Row C V) (db : Database T C V) (key : ForeignKey T C) :
    Except Violation (Database T C V) :=
  match key.onDelete with
  | .noAction => if (db key.table).any (key.refers row) then .error .foreignKey else .ok db
  | .cascade => delete key.table (key.refers row) db
  | .setNull =>
    if (db key.table).any (key.refers row) && key.columns.any (· ∈ s.required key.table) then
      .error .notNull
    else .ok (db.alter key.table (key.refers row) (Row.clear key.columns))

/-- The keys that refer to a table. -/
def keysTo (s : Schema T C) (t : T) : List (ForeignKey T C) :=
  s.foreignKeys.filter (·.parent = t)

/-- `DELETE FROM t WHERE p`, with cascades up to a depth. -/
def delete (s : Schema T C) :
    ℕ → T → (Row C V → Bool) → Database T C V → Except Violation (Database T C V)
  | 0, _, _, _ => .error .depth
  | depth + 1, t, p, db =>
    ((db t).filter p).foldlM (fun db row => (s.keysTo t).foldlM (s.act (s.delete depth) row) db)
      (db.remove t p)

variable {s : Schema T C} {t : T} {p : Row C V → Bool} {db : Database T C V}

theorem delete_leaf (h : s.keysTo t = []) (depth : ℕ) :
    s.delete (depth + 1) t p db = .ok (db.remove t p) := by
  rw [delete, h]
  generalize db.remove t p = after
  induction (db t).filter p with
  | nil => rfl
  | cons row rows ih => exact ih

/-- A key that only cascades to leaves. -/
def Shallow (s : Schema T C) (key : ForeignKey T C) : Prop :=
  key.onDelete = .cascade → s.keysTo key.table = []

/-- What such a key does. -/
def settle (s : Schema T C) (row : Row C V) (db : Database T C V) (key : ForeignKey T C) :
    Except Violation (Database T C V) :=
  s.act (fun t p db => .ok (db.remove t p)) row db key

theorem act_eq_settle {key : ForeignKey T C} (h : s.Shallow key) (depth : ℕ) (row : Row C V) :
    s.act (s.delete (depth + 1)) row db key = s.settle row db key := by
  rw [settle, act, act]
  cases hkey : key.onDelete with
  | noAction => rfl
  | cascade => exact delete_leaf (h hkey) depth
  | setNull => rfl

theorem foldlM_congr {α β ε : Type} {f g : α → β → Except ε α} {bs : List β}
    (h : ∀ b ∈ bs, ∀ a, f a b = g a b) (a : α) : bs.foldlM f a = bs.foldlM g a := by
  induction bs generalizing a with
  | nil => rfl
  | cons b bs ih =>
    rw [List.foldlM_cons, List.foldlM_cons, h b List.mem_cons_self]
    exact congrArg _ (funext fun a => ih (fun c hc => h c (List.mem_cons_of_mem _ hc)) a)

/-- **Deleting without deep cascades**: each key acts once for each row that is gone. -/
theorem delete_shallow (h : ∀ key ∈ s.keysTo t, s.Shallow key) (depth : ℕ) :
    s.delete (depth + 2) t p db =
      ((db t).filter p).foldlM (fun db row => (s.keysTo t).foldlM (s.settle row) db)
        (db.remove t p) := by
  rw [delete]
  refine foldlM_congr (fun row _ db => ?_) _
  exact foldlM_congr (fun key hkey db => act_eq_settle (h key hkey) depth row) db

end Schema

end

end Relational
