/-
Sending reliable records (`Multipath::send` and `reliable_writer` of
`ndp-transport/src/multipath.rs`).

A caller takes one permit of the channel's count and as many of its bytes as the
record weighs, then queues the record; from there on the permits belong to the
record.  The writer numbers queued records, keeps them until they are
acknowledged and writes each once per route: a record is written again only when
the selected path or the epoch has changed since.

`Writer.Accounted` says where every permit is; `pending_weight_le` is the bound
it gives on what is retained.
-/
import NebulaDesk.Multipath.Routes

namespace NebulaDesk

namespace Multipath

/-- A record as a caller hands it in. -/
structure Request where
  header : MsgHeader
  payload : List UInt8
deriving DecidableEq, Repr

/-- The permits of the byte window a record takes. -/
def Request.weight (r : Request) : ℕ := r.payload.length + envelopeLen

/-- What a call of `send` waits for. -/
inductive Stage
  | count | bytes | slot
deriving DecidableEq, Repr

structure Caller where
  request : Request
  stage : Stage
deriving DecidableEq, Repr

def Caller.count (c : Caller) : ℕ := if c.stage = .count then 0 else 1

def Caller.bytes (c : Caller) : ℕ := if c.stage = .slot then c.request.weight else 0

/-- A retained record that is not acknowledged. -/
structure Pending where
  sequence : ℕ
  request : Request
  attempts : PathKind → Option (ℕ × ℕ)

/-- One write of a record to a path. -/
structure Copy where
  path : ℕ
  conn : ℕ
  epoch : ℕ
  sequence : ℕ
  request : Request
deriving DecidableEq, Repr

/-- The message the peer's native session hands on for a copy sealed under `counter`. -/
def Copy.message (c : Channel) (counter : ℕ) (x : Copy) : Incoming where
  channel := c
  header := { x.request.header with seq := UInt32.ofNat counter }
  payload := envelope x.sequence x.epoch x.request.payload

/-- A write that has not returned; the record is sealed in its course. -/
structure Sending where
  copy : Copy
  isSealed : Bool
deriving DecidableEq, Repr

/-- The writer of one channel and the callers in front of it. -/
structure Writer where
  callers : List Caller
  queue : List Request
  pending : List Pending
  sending : List Sending
  /-- The records that own permits: numbered ones that `pending` or a write still holds. -/
  retained : List (ℕ × Request)
  countFree : ℕ
  bytesFree : ℕ

/-- Whether a record was already written on this route. -/
def Pending.attempted (y : Selected) (p : Pending) : Bool :=
  p.attempts y.kind = some (y.id, y.epoch)

def Pending.mark (y : Selected) (p : Pending) : Pending :=
  { p with attempts := Function.update p.attempts y.kind (some (y.id, y.epoch)) }

def markFirst (y : Selected) : List Pending → Option (Pending × List Pending)
  | [] => none
  | p :: ps =>
    if p.attempted y then (markFirst y ps).map fun (q, qs) => (q, p :: qs)
    else some (p, p.mark y :: ps)

namespace Writer

def new : Writer where
  callers := []
  queue := []
  pending := []
  sending := []
  retained := []
  countFree := window
  bytesFree := byteWindow

/-- The paths that a write of this channel occupies. -/
def busy (w : Writer) : List ℕ := w.sending.map (·.copy.path)

/-- Whether anything still holds the record. -/
def holds (w : Writer) (sequence : ℕ) : Bool :=
  w.pending.any (·.sequence = sequence) || w.sending.any (·.copy.sequence = sequence)

/-- Drop the records nothing holds any more, with their permits. -/
def release (w : Writer) : Writer :=
  let dropped := w.retained.filter fun r => !w.holds r.1
  { w with
    retained := w.retained.filter fun r => w.holds r.1
    countFree := w.countFree + dropped.length
    bytesFree := w.bytesFree + (dropped.map (·.2.weight)).sum }

/-- One step of caller `i`: take a permit, take the bytes, or queue the record. -/
def advance (i : ℕ) (w : Writer) : Option Writer :=
  match w.callers[i]? with
  | none => none
  | some ⟨request, .count⟩ =>
    if 0 < w.countFree then
      some { w with
        countFree := w.countFree - 1
        callers := w.callers.set i ⟨request, .bytes⟩ }
    else none
  | some ⟨request, .bytes⟩ =>
    if request.weight ≤ w.bytesFree then
      some { w with
        bytesFree := w.bytesFree - request.weight
        callers := w.callers.set i ⟨request, .slot⟩ }
    else none
  | some ⟨request, .slot⟩ =>
    if w.queue.length < window then
      some { w with queue := w.queue ++ [request], callers := w.callers.eraseIdx i }
    else none

/-- Caller `i` drops its future before the record is queued. -/
def cancel (i : ℕ) (w : Writer) : Option Writer :=
  match w.callers[i]? with
  | none => none
  | some caller =>
    some { w with
      callers := w.callers.eraseIdx i
      countFree := w.countFree + caller.count
      bytesFree := w.bytesFree + caller.bytes }

/-- Forget the records the peer has received. -/
def retire (acknowledged : ℕ) (w : Writer) : Writer :=
  ({ w with pending := w.pending.dropWhile (·.sequence < acknowledged) } : Writer).release

/-- Start writing the next record to the selected path, unless a write of this
channel occupies it. -/
def attempt (y : Selected) (w : Writer) : Writer :=
  if w.busy.contains y.id ∨ ¬ w.busy.length < 2 then w
  else match markFirst y w.pending with
    | none => w
    | some (p, pending) =>
      { w with
        pending := pending
        sending := w.sending ++ [⟨⟨y.id, y.native.conn, y.epoch, p.sequence, p.request⟩, false⟩] }

/-- A write of the channel returns. -/
def complete (i : ℕ) (w : Writer) : Writer :=
  ({ w with sending := w.sending.eraseIdx i } : Writer).release

/-- Number the next queued record. -/
def number (sequence : ℕ) (request : Request) (rest : List Request) (w : Writer) : Writer :=
  { w with
    queue := rest
    pending := w.pending ++ [⟨sequence, request, fun _ => none⟩]
    retained := w.retained ++ [(sequence, request)] }

end Writer

/-! ### Marking -/

/-- What `markFirst` finds. -/
theorem markFirst_eq_some {y : Selected} {ps qs : List Pending} {p : Pending}
    (h : markFirst y ps = some (p, qs)) :
    ∃ front back, ps = front ++ p :: back ∧ qs = front ++ p.mark y :: back ∧
      (∀ q ∈ front, q.attempted y = true) ∧ p.attempted y = false := by
  induction ps generalizing qs with
  | nil => cases h
  | cons q ps ih =>
    unfold markFirst at h
    by_cases hq : q.attempted y = true
    · rw [if_pos hq] at h
      obtain ⟨⟨p', qs'⟩, hrec, heq⟩ := Option.map_eq_some_iff.mp h
      cases heq
      obtain ⟨front, back, rfl, rfl, hfront, hp⟩ := ih hrec
      refine ⟨q :: front, back, rfl, rfl, ?_, hp⟩
      intro o ho
      rcases List.mem_cons.mp ho with rfl | ho
      · exact hq
      · exact hfront o ho
    · rw [if_neg hq] at h
      cases h
      exact ⟨[], ps, rfl, rfl, by simp, by simpa using hq⟩

theorem Pending.attempted_mark (y : Selected) (p : Pending) : (p.mark y).attempted y = true := by
  simp [attempted, mark]

/-! ### Permits -/

section Sums

variable {α : Type} (f : α → ℕ)

theorem sum_map_set {l : List α} {i : ℕ} {a : α} (h : l[i]? = some a) (b : α) :
    ((l.set i b).map f).sum + f a = (l.map f).sum + f b := by
  induction l generalizing i with
  | nil => cases h
  | cons x l ih =>
    cases i with
    | zero =>
      cases h
      simp only [List.set_cons_zero, List.map_cons, List.sum_cons]
      omega
    | succ i =>
      have := ih (by simpa using h)
      simp only [List.set_cons_succ, List.map_cons, List.sum_cons]
      omega

theorem sum_map_eraseIdx {l : List α} {i : ℕ} {a : α} (h : l[i]? = some a) :
    ((l.eraseIdx i).map f).sum + f a = (l.map f).sum := by
  induction l generalizing i with
  | nil => cases h
  | cons x l ih =>
    cases i with
    | zero =>
      cases h
      simp only [List.eraseIdx_cons_zero, List.map_cons, List.sum_cons]
      omega
    | succ i =>
      have := ih (by simpa using h)
      simp only [List.eraseIdx_cons_succ, List.map_cons, List.sum_cons]
      omega

theorem sum_map_filter_add (p : α → Bool) (l : List α) :
    ((l.filter p).map f).sum + ((l.filter fun x => !p x).map f).sum = (l.map f).sum := by
  induction l with
  | nil => rfl
  | cons x l ih =>
    cases hp : p x <;> simp only [List.filter_cons, hp, Bool.not_true, Bool.not_false, if_true,
      Bool.false_eq_true, if_false, List.map_cons, List.sum_cons] <;> omega

end Sums

namespace Writer

/-- Every permit is free, or belongs to a caller, a queued record or a retained one. -/
structure Accounted (w : Writer) : Prop where
  count : w.countFree + (w.callers.map Caller.count).sum + w.queue.length +
    w.retained.length = window
  bytes : w.bytesFree + (w.callers.map Caller.bytes).sum + (w.queue.map Request.weight).sum +
    (w.retained.map (·.2.weight)).sum = byteWindow
  pending : (w.pending.map fun p => (p.sequence, p.request)).Sublist w.retained

variable {w : Writer}

theorem accounted_new : new.Accounted := ⟨rfl, rfl, .slnil⟩

theorem Accounted.release (h : w.Accounted) : w.release.Accounted where
  count := by
    have hsplit := List.length_eq_length_filter_add (l := w.retained) fun r => w.holds r.1
    have := h.count
    simp only [Writer.release]
    omega
  bytes := by
    have hsplit := sum_map_filter_add (fun r : ℕ × Request => r.2.weight) (fun r => w.holds r.1)
      w.retained
    have := h.bytes
    simp only [Writer.release]
    omega
  pending := by
    have hself : (w.pending.map fun p => (p.sequence, p.request)).filter (fun r => w.holds r.1) =
        w.pending.map fun p => (p.sequence, p.request) := by
      rw [List.filter_eq_self]
      intro r hr
      obtain ⟨p, hp, rfl⟩ := List.mem_map.mp hr
      simp only [holds, Bool.or_eq_true, List.any_eq_true, decide_eq_true_eq]
      exact .inl ⟨p, hp, rfl⟩
    have := h.pending.filter fun r => w.holds r.1
    rwa [hself] at this

theorem Accounted.advance {w' : Writer} {i : ℕ} (h : w.Accounted) (hw : w.advance i = some w') :
    w'.Accounted := by
  have hc := h.count
  have hb := h.bytes
  unfold Writer.advance at hw
  split at hw
  · cases hw
  · -- The caller takes a permit of the count.
    rename_i request hi
    split at hw
    · cases hw
      have h1 := sum_map_set Caller.count hi ⟨request, .bytes⟩
      have h2 := sum_map_set Caller.bytes hi ⟨request, .bytes⟩
      simp only [Caller.count, Caller.bytes, reduceCtorEq, if_true, if_false] at h1 h2
      refine ⟨?_, ?_, h.pending⟩ <;> dsimp only <;> omega
    · cases hw
  · -- The caller takes the record's bytes.
    rename_i request hi
    split at hw
    · cases hw
      have h1 := sum_map_set Caller.count hi ⟨request, .slot⟩
      have h2 := sum_map_set Caller.bytes hi ⟨request, .slot⟩
      simp only [Caller.count, Caller.bytes, reduceCtorEq, if_true, if_false] at h1 h2
      refine ⟨?_, ?_, h.pending⟩ <;> dsimp only <;> omega
    · cases hw
  · -- The permits pass to the queued record.
    rename_i request hi
    split at hw
    · cases hw
      have h1 := sum_map_eraseIdx Caller.count hi
      have h2 := sum_map_eraseIdx Caller.bytes hi
      simp only [Caller.count, Caller.bytes, reduceCtorEq, if_true, if_false] at h1 h2
      refine ⟨?_, ?_, h.pending⟩ <;> simp only [List.length_append, List.length_singleton,
        List.map_append, List.sum_append, List.map_singleton, List.sum_singleton] <;> omega
    · cases hw

theorem Accounted.cancel {w' : Writer} {i : ℕ} (h : w.Accounted) (hw : w.cancel i = some w') :
    w'.Accounted := by
  have hc := h.count
  have hb := h.bytes
  unfold Writer.cancel at hw
  split at hw
  · cases hw
  · rename_i caller hi
    cases hw
    have h1 := sum_map_eraseIdx Caller.count hi
    have h2 := sum_map_eraseIdx Caller.bytes hi
    refine ⟨?_, ?_, h.pending⟩ <;> dsimp only <;> omega

theorem Accounted.retire (h : w.Accounted) (acknowledged : ℕ) :
    (w.retire acknowledged).Accounted := by
  refine Accounted.release ⟨h.count, h.bytes, ?_⟩
  exact ((List.dropWhile_sublist _).map _).trans h.pending

theorem Accounted.attempt (h : w.Accounted) (y : Selected) : (w.attempt y).Accounted := by
  unfold Writer.attempt
  split
  · exact h
  split
  · exact h
  · rename_i p pending hmark
    obtain ⟨front, back, hps, rfl, -, -⟩ := markFirst_eq_some hmark
    refine ⟨h.count, h.bytes, ?_⟩
    have := h.pending
    rw [hps] at this
    simpa [Pending.mark] using this

theorem Accounted.complete (h : w.Accounted) (i : ℕ) : (w.complete i).Accounted :=
  Accounted.release { h with }

theorem Accounted.number (h : w.Accounted) {request : Request} {rest : List Request}
    (hq : w.queue = request :: rest) (sequence : ℕ) :
    (w.number sequence request rest).Accounted where
  count := by
    have := h.count
    rw [hq] at this
    simp only [Writer.number, List.length_append, List.length_cons, List.length_nil] at this ⊢
    omega
  bytes := by
    have := h.bytes
    rw [hq] at this
    simp only [Writer.number, List.map_append, List.sum_append, List.map_cons, List.sum_cons,
      List.map_nil, List.sum_nil] at this ⊢
    omega
  pending := by
    simp only [Writer.number, List.map_append, List.map_singleton]
    exact h.pending.append (List.Sublist.refl _)

theorem Accounted.pending_weight_le (h : w.Accounted) :
    (w.pending.map fun p => p.request.weight).sum ≤ byteWindow := by
  have hle := (h.pending.map fun r => r.2.weight).sum_le_sum (by simp)
  have := h.bytes
  simp only [List.map_map] at hle
  calc (w.pending.map fun p => p.request.weight).sum
      ≤ (w.retained.map fun r => r.2.weight).sum := hle
    _ ≤ byteWindow := by omega

end Writer

end Multipath

end NebulaDesk
