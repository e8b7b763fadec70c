/-
Read-committed transactions over rows.

A store maps addresses to rows of their own type.  A transaction reads the committed
store, keeps what it has written to itself, holds the locks of the rows it has read
for update until it ends, and writes all or nothing.

* `Store.writeAll_frame` — a row no write names keeps its value;
* `Locks` — exclusive and shared locks, and what each operation leaves to others;
* `replay` — a store as the commits it has seen.
-/
import NebulaDesk.Lib.Runs

namespace Transactions

variable {κ : Type*} {ρ : κ → Type*}

/-- An address before, while and after it has a row. -/
inductive Slot (α : Type*)
  | absent
  | row (a : α)
  | gone
deriving DecidableEq

namespace Slot

variable {α : Type*}

def get? : Slot α → Option α
  | row a => some a
  | _ => none

def isAbsent : Slot α → Bool
  | absent => true
  | _ => false

theorem get?_eq_some {s : Slot α} {a : α} : s.get? = some a ↔ s = row a := by
  cases s <;> simp [get?]

theorem isAbsent_iff {s : Slot α} : s.isAbsent = true ↔ s = absent := by
  cases s <;> simp [isAbsent]

end Slot

/-- The committed rows. -/
def Store (ρ : κ → Type*) := (k : κ) → Slot (ρ k)

/-- A write of one row. -/
abbrev Write (ρ : κ → Type*) := (k : κ) × Slot (ρ k)

namespace Store

variable [DecidableEq κ]

def write (db : Store ρ) (w : Write ρ) : Store ρ := Function.update db w.1 w.2

def writeAll (db : Store ρ) (ws : List (Write ρ)) : Store ρ := ws.foldl write db

@[simp] theorem writeAll_cons (db : Store ρ) (w : Write ρ) (ws : List (Write ρ)) :
    db.writeAll (w :: ws) = (db.write w).writeAll ws := rfl

@[simp] theorem write_self (db : Store ρ) (k : κ) (v : Slot (ρ k)) : db.write ⟨k, v⟩ k = v := by
  unfold write
  exact Function.update_self ..

theorem write_of_ne (db : Store ρ) {w : Write ρ} {k : κ} (h : k ≠ w.1) : db.write w k = db k := by
  unfold write
  exact Function.update_of_ne h ..

theorem writeAll_frame (db : Store ρ) {ws : List (Write ρ)} {k : κ}
    (h : ∀ w ∈ ws, k ≠ w.1) : db.writeAll ws k = db k := by
  induction ws generalizing db with
  | nil => rfl
  | cons w ws ih =>
    rw [writeAll_cons, ih _ fun w' hw' => h w' (List.mem_cons_of_mem w hw')]
    exact write_of_ne db (h w List.mem_cons_self)

theorem writeAll_head (db : Store ρ) {k : κ} (v : Slot (ρ k)) {ws : List (Write ρ)}
    (h : ∀ w ∈ ws, k ≠ w.1) : db.writeAll (⟨k, v⟩ :: ws) k = v := by
  rw [writeAll_cons, writeAll_frame _ h, write_self]

end Store

/-- Who holds a row for update, and who shares it. -/
structure Locks (κ : Type*) where
  holder : κ → Option ℕ
  sharers : κ → List ℕ

namespace Locks

def none : Locks κ := { holder := fun _ => .none, sharers := fun _ => [] }

/-- Nobody has a lock on the row. -/
def isFree (t : Locks κ) (k : κ) : Bool := (t.holder k).isNone && (t.sharers k).isEmpty

/-- The row may be locked for update by `c`. -/
def mayTake (t : Locks κ) (c : ℕ) (k : κ) : Bool :=
  (t.holder k).all (· = c) && (t.sharers k).all (· = c)

/-- The row may be locked for share. -/
def mayShare (t : Locks κ) (c : ℕ) (k : κ) : Bool := (t.holder k).all (· = c)

section Change

variable [DecidableEq κ]

def take (t : Locks κ) (c : ℕ) (k : κ) : Locks κ :=
  { t with holder := Function.update t.holder k (some c) }

def share (t : Locks κ) (c : ℕ) (k : κ) : Locks κ :=
  { t with sharers := Function.update t.sharers k (c :: t.sharers k) }

end Change

/-- The end of a transaction. -/
def release (t : Locks κ) (c : ℕ) : Locks κ where
  holder k := if t.holder k = some c then .none else t.holder k
  sharers k := (t.sharers k).filter (· ≠ c)

/-- `c` has the row locked for update. -/
def Holds (t : Locks κ) (c : ℕ) (k : κ) : Prop := t.holder k = some c

/-- `c` has the row locked for share. -/
def Shares (t : Locks κ) (c : ℕ) (k : κ) : Prop := c ∈ t.sharers k

/-- Nobody else shares a row that is locked for update. -/
def Valid (t : Locks κ) : Prop := ∀ k c d, t.Holds c k → t.Shares d k → d = c

variable {t : Locks κ} {c d : ℕ} {j k : κ}

theorem valid_none : (none : Locks κ).Valid := by
  intro k c d h
  cases h

theorem Holds.unique (h : t.Holds c k) (h' : t.Holds d k) : c = d :=
  Option.some.inj (h.symm.trans h')

theorem Holds.eq_of_mayTake (h : t.Holds d k) (hmay : t.mayTake c k = true) : d = c := by
  unfold Holds at h
  simp only [mayTake, h, Option.all_some, Bool.and_eq_true, decide_eq_true_eq] at hmay
  exact hmay.1

theorem Shares.eq_of_mayTake (h : t.Shares d k) (hmay : t.mayTake c k = true) : d = c := by
  simp only [mayTake, Bool.and_eq_true, List.all_eq_true, decide_eq_true_eq] at hmay
  exact hmay.2 d h

section Change

variable [DecidableEq κ]

theorem take_holds (t : Locks κ) (c : ℕ) (k : κ) : (t.take c k).Holds c k := by
  simp [Holds, take]

theorem share_shares (t : Locks κ) (c : ℕ) (k : κ) : (t.share c k).Shares c k := by
  simp [Shares, share]

theorem Holds.take (h : t.Holds d j) (hmay : t.mayTake c k = true) : (t.take c k).Holds d j := by
  by_cases hjk : j = k
  · subst hjk
    rw [h.eq_of_mayTake hmay]
    exact take_holds t c j
  · simp only [Holds, Locks.take, Function.update_of_ne hjk]
    exact h

theorem mayTake_take (h : t.mayTake c j = true) : (t.take c k).mayTake c j = true := by
  by_cases hjk : j = k
  · subst hjk
    simp only [mayTake, Bool.and_eq_true] at h
    simp [mayTake, take, h.2]
  · simpa only [mayTake, take, Function.update_of_ne hjk] using h

theorem Shares.take (h : t.Shares d j) : (t.take c k).Shares d j := h

theorem Holds.share (h : t.Holds d j) : (t.share c k).Holds d j := h

theorem Shares.share (h : t.Shares d j) : (t.share c k).Shares d j := by
  by_cases hjk : j = k
  · subst hjk
    simp only [Shares, Locks.share, Function.update_self]
    exact List.mem_cons_of_mem c h
  · simp only [Shares, Locks.share, Function.update_of_ne hjk]
    exact h

theorem Valid.take (h : t.Valid) (hmay : t.mayTake c k = true) : (t.take c k).Valid := by
  intro j a d ha hd
  by_cases hjk : j = k
  · subst hjk
    have hd' : t.Shares d j := hd
    rw [hd'.eq_of_mayTake hmay, (take_holds t c j).unique ha]
  · refine h j a d ?_ hd
    simpa only [Holds, Locks.take, Function.update_of_ne hjk] using ha

theorem Valid.share (h : t.Valid) (hmay : t.mayShare c k = true) : (t.share c k).Valid := by
  intro j a d ha hd
  have ha' : t.Holds a j := ha
  by_cases hjk : j = k
  · subst hjk
    simp only [Shares, Locks.share, Function.update_self] at hd
    rcases List.mem_cons.mp hd with rfl | hd
    · unfold Holds at ha'
      simp only [mayShare, ha', Option.all_some, decide_eq_true_eq] at hmay
      exact hmay.symm
    · exact h j a d ha' hd
  · simp only [Shares, Locks.share, Function.update_of_ne hjk] at hd
    exact h j a d ha' hd

end Change

theorem Valid.release (h : t.Valid) (c : ℕ) : (t.release c).Valid := by
  intro j a d ha hd
  refine h j a d ?_ (List.mem_filter.mp hd).1
  unfold Holds Locks.release at ha
  dsimp only at ha
  split at ha
  · cases ha
  · exact ha

theorem Holds.release (h : t.Holds d j) (hne : d ≠ c) : (t.release c).Holds d j := by
  unfold Locks.release Holds
  dsimp only
  rw [if_neg ?_]
  · exact h
  · rw [show t.holder j = some d from h]
    intro heq
    exact hne (Option.some.inj heq)

theorem Shares.release (h : t.Shares d j) (hne : d ≠ c) : (t.release c).Shares d j :=
  List.mem_filter.mpr ⟨h, by simpa using hne⟩

theorem not_free_of_holds (h : t.Holds d k) : t.isFree k = false := by
  unfold Holds at h
  simp [isFree, h]

theorem not_free_of_shares (h : t.Shares d k) : t.isFree k = false := by
  unfold isFree
  have hne : (t.sharers k).isEmpty = false := by
    rw [List.isEmpty_eq_false_iff]
    exact List.ne_nil_of_mem h
  rw [hne, Bool.and_false]

end Locks

/-! ### Histories of commits -/

/-- A commit: the request it belongs to, what it has written, and why. -/
structure Commit (ρ : κ → Type*) (ν : Type*) where
  task : Option ℕ
  writes : List (Write ρ)
  what : ν

variable [DecidableEq κ] {ν : Type*}

/-- The store after a history. -/
def replay (db : Store ρ) (history : List (Commit ρ ν)) : Store ρ :=
  history.foldl (fun db e => db.writeAll e.writes) db

@[simp] theorem replay_concat (db : Store ρ) (history : List (Commit ρ ν)) (e : Commit ρ ν) :
    replay db (history ++ [e]) = (replay db history).writeAll e.writes := by
  simp [replay]

end Transactions
