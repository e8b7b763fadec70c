/-
Presses and releases.

Somebody watches a stream of presses and releases of keys of any kind and keeps
the set of those that are down.  A press may be repeated; a release of a key that
is not down has no place in a stream, so a stream that `plays` never contains
one.
-/
import NebulaDesk.Lib.Runs

namespace Presses

variable {α : Type*} [DecidableEq α]

inductive Press (α : Type*)
  | down (key : α)
  | up (key : α)
deriving DecidableEq

/-- What is down after a press or a release. -/
def hold (held : Finset α) : Press α → Option (Finset α)
  | .down key => some (insert key held)
  | .up key => if key ∈ held then some (held.erase key) else none

variable {key : α} {held : Finset α} {stream : List (Press α)}

theorem hold_up {held mid : Finset α} (h : hold held (.up key) = some mid) :
    key ∈ held ∧ held.erase key = mid := by
  simp only [hold] at h
  split at h
  · rename_i hkey
    exact ⟨hkey, Option.some.inj h⟩
  · cases h

/-- What is down after a stream, if it releases only what is down. -/
def plays (held : Finset α) (stream : List (Press α)) : Option (Finset α) :=
  Runs.tryRun hold held stream

@[simp] theorem plays_nil (held : Finset α) : plays held [] = some held := rfl

@[simp] theorem plays_down (held : Finset α) (key : α) :
    plays held [.down key] = some (insert key held) := rfl

theorem plays_up (h : key ∈ held) : plays held [.up key] = some (held.erase key) := by
  show (if key ∈ held then some (held.erase key) else none).bind some = _
  rw [if_pos h]
  rfl

theorem plays_append {held mid after : Finset α} {xs ys : List (Press α)}
    (hx : plays held xs = some mid) (hy : plays mid ys = some after) :
    plays held (xs ++ ys) = some after := by
  unfold plays Runs.tryRun at *
  rw [List.foldlM_append, hx]
  exact hy

variable {keys : List α}

theorem plays_releases (hnodup : keys.Nodup) (hheld : ∀ key ∈ keys, key ∈ held) :
    plays held (keys.map .up) = some (held \ keys.toFinset) := by
  induction keys generalizing held with
  | nil => simp
  | cons key keys ih =>
    obtain ⟨hnew, hnodup⟩ := List.nodup_cons.mp hnodup
    have hfirst := plays_up (hheld key List.mem_cons_self)
    have hrest : plays (held.erase key) (keys.map .up) = some (held.erase key \ keys.toFinset) := by
      refine ih hnodup ?_
      intro other hother
      refine Finset.mem_erase.mpr ⟨?_, hheld other (List.mem_cons_of_mem _ hother)⟩
      rintro rfl
      exact hnew hother
    rw [List.map_cons, ← List.singleton_append, plays_append hfirst hrest, List.toFinset_cons,
      Finset.erase_sdiff_comm, Finset.sdiff_insert]

/-! ### Streams somebody else watches -/

/-- What is down after a stream, whatever it releases. -/
def leaves (held : Finset α) (stream : List (Press α)) : Finset α :=
  stream.foldl (fun held p =>
    match p with
    | .down key => insert key held
    | .up key => held.erase key) held

@[simp] theorem leaves_nil (held : Finset α) : leaves held [] = held := rfl

theorem leaves_cons (held : Finset α) (p : Press α) (stream : List (Press α)) :
    leaves held (p :: stream) = leaves (leaves held [p]) stream := rfl

theorem leaves_append (held : Finset α) (xs ys : List (Press α)) :
    leaves held (xs ++ ys) = leaves (leaves held xs) ys := List.foldl_append

theorem mem_of_leaves (h : key ∈ leaves held stream) : key ∈ held ∨ .down key ∈ stream := by
  induction stream generalizing held with
  | nil => exact .inl h
  | cons p stream ih =>
    rw [leaves_cons] at h
    rcases ih h with hfirst | hlater
    · cases p with
      | down other =>
        rcases Finset.mem_insert.mp hfirst with rfl | hheld
        · exact .inr List.mem_cons_self
        · exact .inl hheld
      | up other => exact .inl (Finset.mem_of_mem_erase hfirst)
    · exact .inr (List.mem_cons_of_mem p hlater)

theorem mem_leaves_downs : key ∈ leaves held (keys.map .down) ↔ key ∈ held ∨ key ∈ keys := by
  induction keys generalizing held with
  | nil => simp
  | cons first keys ih =>
    rw [List.map_cons, leaves_cons, ih]
    show key ∈ insert first held ∨ key ∈ keys ↔ _
    rw [Finset.mem_insert, List.mem_cons]
    tauto

theorem mem_leaves_ups : key ∈ leaves held (keys.map .up) ↔ key ∈ held ∧ key ∉ keys := by
  induction keys generalizing held with
  | nil => simp
  | cons first keys ih =>
    rw [List.map_cons, leaves_cons, ih]
    show key ∈ held.erase first ∧ key ∉ keys ↔ _
    rw [Finset.mem_erase, List.mem_cons]
    tauto

theorem leaves_of_plays {held after : Finset α}
    (h : plays held stream = some after) : leaves held stream = after := by
  induction stream generalizing held with
  | nil => exact Option.some.inj h
  | cons p stream ih =>
    obtain ⟨mid, hmid, hrest⟩ := Option.bind_eq_some_iff.mp h
    rw [leaves_cons, ← ih hrest]
    congr 1
    cases p with
    | down key => exact Option.some.inj hmid
    | up key => exact (hold_up hmid).2

theorem leaves_mono {A B : Finset α} (h : A ⊆ B) (stream : List (Press α)) :
    leaves A stream ⊆ leaves B stream := by
  induction stream generalizing A B with
  | nil => exact h
  | cons p stream ih =>
    rw [leaves_cons, leaves_cons]
    refine ih ?_
    cases p with
    | down key => exact Finset.insert_subset_insert key h
    | up key => exact Finset.erase_subset_erase key h

theorem mem_leaves (h : key ∈ held) (hup : .up key ∉ stream) : key ∈ leaves held stream := by
  induction stream generalizing held with
  | nil => exact h
  | cons p stream ih =>
    rw [leaves_cons]
    refine ih ?_ fun hmem => hup (List.mem_cons_of_mem p hmem)
    cases p with
    | down other => exact Finset.mem_insert_of_mem h
    | up other =>
      refine Finset.mem_erase.mpr ⟨?_, h⟩
      rintro rfl
      exact hup List.mem_cons_self

theorem mem_leaves_of_notMem (hdown : .down key ∉ stream) (hup : .up key ∉ stream) :
    key ∈ leaves held stream ↔ key ∈ held :=
  ⟨fun h => (mem_of_leaves h).resolve_right hdown, fun h => mem_leaves h hup⟩

/-! ### Keys of two kinds -/

section Sum

variable {β : Type*} [DecidableEq β]

def Press.map {γ : Type*} (f : α → γ) : Press α → Press γ
  | .down key => .down (f key)
  | .up key => .up (f key)

theorem plays_inl {A A' : Finset α} {stream : List (Press α)} (h : plays A stream = some A')
    (B : Finset β) : plays (A.disjSum B) (stream.map (.map Sum.inl)) = some (A'.disjSum B) := by
  induction stream generalizing A with
  | nil => rw [Option.some.inj h, List.map_nil, plays_nil]
  | cons p stream ih =>
    obtain ⟨mid, hmid, hrest⟩ := Option.bind_eq_some_iff.mp h
    show plays _ ([p.map Sum.inl] ++ stream.map (.map Sum.inl)) = _
    refine plays_append ?_ (ih hrest)
    cases p with
    | down key =>
      cases hmid
      rw [Press.map, plays_down]
      congr 1
      ext x
      cases x <;> simp
    | up key =>
      obtain ⟨hkey, rfl⟩ := hold_up hmid
      rw [Press.map, plays_up (Finset.inl_mem_disjSum.mpr hkey)]
      congr 1
      ext x
      cases x <;> simp

end Sum

/-! ### Ordered sets -/

section Ascending

variable {β : Type*} [LinearOrder β]

/-- The elements of a set in ascending order. -/
def ascending (s : Finset β) : List β :=
  Quot.lift (List.insertionSort (· ≤ ·))
    (fun a b h => List.Perm.eq_of_pairwise' (List.pairwise_insertionSort _ a)
      (List.pairwise_insertionSort _ b)
      (((List.perm_insertionSort _ a).trans h).trans (List.perm_insertionSort _ b).symm)) s.val

@[simp] theorem mem_ascending {s : Finset β} {x : β} : x ∈ ascending s ↔ x ∈ s := by
  obtain ⟨⟨l⟩, hl⟩ := s
  exact (List.perm_insertionSort _ l).mem_iff

theorem nodup_ascending (s : Finset β) : (ascending s).Nodup := by
  obtain ⟨⟨l⟩, hl⟩ := s
  exact (List.perm_insertionSort _ l).nodup_iff.mpr hl

end Ascending

end Presses
