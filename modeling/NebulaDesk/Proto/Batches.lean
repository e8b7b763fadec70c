/-
Reading a batch one event at a time (`iter_batch` in `ndp-proto/src/input.rs`).

A decoder that `Reads` so many bytes looks at these and at nothing after them, so that an event is
the same whether it is decoded out of the whole batch or out of its own 32 bytes.  `iterBatch` hands
out the chunks of a batch one by one; `decode_batch` returns what the chunks have in common with it
(`decodeBatch_eq_mapM`).
-/
import NebulaDesk.Proto.WireFormats

namespace NebulaDesk

open Bytes Layout

section Reading

variable {α β : Type} {n m : ℕ}

/-- What the decoder makes of `n` bytes does not depend on what follows them. -/
def Reads (n : ℕ) (f : List UInt8 → Except ProtoError (α × List UInt8)) : Prop :=
  ∃ value : List UInt8 → Except ProtoError α, ∀ a t, a.length = n →
    f (a ++ t) = (value a).map fun v => (v, t)

namespace Reads

variable {f : List UInt8 → Except ProtoError (α × List UInt8)}
  {g : α × List UInt8 → Except ProtoError (β × List UInt8)}

theorem readInt (n : ℕ) : Reads n (readInt n) := by
  refine ⟨fun a => .ok (fromLeBytes a), fun a t ha => ?_⟩
  have hlen : ¬ (a ++ t).length < n := by
    rw [List.length_append]
    omega
  rw [NebulaDesk.readInt, take, if_neg hlen, List.splitAt_eq, List.take_left' ha,
    List.drop_left' ha]
  rfl

theorem pure (x : α) : Reads 0 fun b => Except.ok (x, b) := by
  refine ⟨fun _ => .ok x, fun a t ha => ?_⟩
  rw [List.length_eq_zero_iff.mp ha, List.nil_append]
  rfl

theorem error (e : ProtoError) : Reads n (fun _ => .error e : List UInt8 → Except _ (α × _)) :=
  ⟨fun _ => .error e, fun _ _ _ => rfl⟩

/-- **One field after another.** -/
theorem bind (hf : Reads n f) (hg : ∀ x, Reads m fun b => g (x, b)) :
    Reads (n + m) fun b => f b >>= g := by
  obtain ⟨v, hv⟩ := hf
  choose w hw using hg
  refine ⟨fun a => v (a.take n) >>= fun x => w x (a.drop n), fun a t ha => ?_⟩
  have htake : (a.take n).length = n := by
    rw [List.length_take]
    omega
  have hdrop : (a.drop n).length = m := by
    rw [List.length_drop]
    omega
  have hsplit : f (a ++ t) = (v (a.take n)).map fun x => (x, a.drop n ++ t) := by
    rw [← hv _ _ htake, ← List.append_assoc, List.take_append_drop]
  dsimp only
  rw [hsplit]
  cases v (a.take n) with
  | error e => rfl
  | ok x => exact hw x (a.drop n) t hdrop

theorem check {γ : Type} {x : Except ProtoError γ}
    {g : γ → List UInt8 → Except ProtoError (β × List UInt8)} (hg : ∀ v, Reads m (g v)) :
    Reads m fun b => x >>= fun v => g v b := by
  cases x with
  | error e => exact error e
  | ok v => exact hg v

theorem guard (c : Prop) [Decidable c] (e : ProtoError) (x : α) :
    Reads 0 fun b => if c then .error e else .ok (x, b) := by
  split
  · exact error e
  · exact pure x

theorem readFinite (field : String) : Reads 4 (readFinite field) := by
  exact bind (m := 0) (readInt 4) fun _ => guard _ _ _

theorem readCoord (field : String) : Reads 4 (readCoord field) := by
  exact bind (m := 0) (readFinite field) fun _ => pure _

theorem decode : Reads inputEventLen InputEvent.decode := by
  refine bind (m := 31) (readInt 1) fun kind => check fun kind => ?_
  refine bind (m := 30) (readInt 1) fun button => check fun button => ?_
  refine bind (m := 28) (readInt 2) fun modifiers => bind (m := 27) (readInt 1) fun display => ?_
  refine bind (m := 26) (readInt 1) fun _ => bind (m := 24) (readInt 2) fun pointerId => ?_
  refine bind (m := 20) (readCoord "x") fun x => bind (m := 16) (readCoord "y") fun y => ?_
  refine bind (m := 12) (readFinite "scroll_x") fun scrollX => ?_
  refine bind (m := 8) (readFinite "scroll_y") fun scrollY => ?_
  refine bind (m := 4) (readInt 4) fun key => bind (m := 0) (readInt 4) fun unicode => ?_
  exact guard _ _ _

end Reads

theorem mapM_eq_ok {ε : Type} {l : List (Except ε α)} {vs : List α} :
    l.mapM id = .ok vs ↔ l = vs.map .ok := by
  induction l generalizing vs with
  | nil =>
    cases vs with
    | nil => exact iff_of_true rfl rfl
    | cons v vs => exact iff_of_false (fun h => by cases h) (fun h => by cases h)
  | cons x l ih =>
    rw [List.mapM_cons, bind_eq_ok]
    constructor
    · rintro ⟨v, rfl : x = .ok v, hrest⟩
      obtain ⟨vs', hvs', hout⟩ := bind_eq_ok.mp hrest
      cases hout
      rw [List.map_cons, ih.mp hvs']
    · intro h
      cases vs with
      | nil => cases h
      | cons v vs =>
        obtain ⟨rfl, hl⟩ := List.cons.inj h
        exact ⟨v, rfl, bind_eq_ok.mpr ⟨vs, ih.mpr hl, rfl⟩⟩

theorem mapM_eq_error {ε : Type} {l : List (Except ε α)} {e : ε} (h : l.mapM id = .error e) :
    ∃ (vs : List α) (after : List (Except ε α)), l = vs.map .ok ++ .error e :: after := by
  induction l with
  | nil => cases h
  | cons x l ih =>
    rw [List.mapM_cons] at h
    cases x with
    | error e' =>
      cases h
      exact ⟨[], l, rfl⟩
    | ok v =>
      have hrest : l.mapM id = .error e := by
        cases hl : l.mapM id with
        | error e' => rw [← h, hl]; rfl
        | ok vs => rw [hl] at h; cases h
      obtain ⟨vs, after, rfl⟩ := ih hrest
      exact ⟨v :: vs, after, rfl⟩

end Reading

namespace InputEvent

/-- An event of a batch, or why it could not be read. -/
abbrev BatchItem := Except ProtoError InputEvent

/-- A call of the iterator that `iter_batch` returns. -/
def nextItem (rest : List UInt8) : Option BatchItem × List UInt8 :=
  if rest.isEmpty then (none, rest)
  else if rest.length < inputEventLen then
    (some (.error (.truncated inputEventLen rest.length)), [])
  else (some ((decode (rest.take inputEventLen)).map Prod.fst), rest.drop inputEventLen)

/-- What the iterator yields before its first `None`, if that comes within so many calls. -/
def iterBatch : ℕ → List UInt8 → Option (List BatchItem)
  | 0, _ => none
  | calls + 1, rest =>
    match nextItem rest with
    | (none, _) => some []
    | (some item, rest) => (iterBatch calls rest).map (item :: ·)

/-- What becomes of chunk `i` of a batch, by itself. -/
def chunkItem (buf : List UInt8) (i : ℕ) : BatchItem :=
  let chunk := (buf.drop (inputEventLen * i)).take inputEventLen
  if chunk.length < inputEventLen then .error (.truncated inputEventLen chunk.length)
  else (decode chunk).map Prod.fst

/-- How many chunks a batch has, the last one perhaps incomplete. -/
def chunks (buf : List UInt8) : ℕ := (buf.length + 31) / inputEventLen

def items (buf : List UInt8) : List BatchItem := (List.range (chunks buf)).map (chunkItem buf)

theorem items_nil : items [] = [] := rfl

variable {buf : List UInt8}

theorem chunks_drop (hne : buf ≠ []) : chunks buf = chunks (buf.drop inputEventLen) + 1 := by
  have hpos := List.length_pos_of_ne_nil hne
  unfold chunks inputEventLen
  rw [List.length_drop]
  omega

theorem items_cons (hne : buf ≠ []) :
    items buf = chunkItem buf 0 :: items (buf.drop inputEventLen) := by
  have hnext : ∀ i, chunkItem buf (i + 1) = chunkItem (buf.drop inputEventLen) i := by
    intro i
    rw [chunkItem, chunkItem, List.drop_drop, Nat.mul_succ, Nat.add_comm]
  rw [items, chunks_drop hne, List.range_succ_eq_map, List.map_cons, List.map_map, items]
  congr 1
  exact List.map_congr_left fun i _ => hnext i

theorem nextItem_cons (hne : buf ≠ []) :
    nextItem buf = (some (chunkItem buf 0), buf.drop inputEventLen) := by
  have hempty : buf.isEmpty = false := by
    rw [List.isEmpty_eq_false_iff]
    exact hne
  unfold nextItem chunkItem
  dsimp only
  rw [hempty, if_neg Bool.false_ne_true, Nat.mul_zero, List.drop_zero, List.length_take]
  by_cases hlen : buf.length < inputEventLen
  · rw [if_pos hlen, if_pos (by omega), Nat.min_eq_right hlen.le, List.drop_of_length_le hlen.le]
  · rw [if_neg hlen, if_neg (by omega)]

/-- **The iterator yields the chunks one by one and then stops.** -/
theorem iterBatch_iff {calls : ℕ} {l : List BatchItem} :
    iterBatch calls buf = some l ↔ chunks buf < calls ∧ l = items buf := by
  induction calls generalizing buf l with
  | zero => exact iff_of_false (fun h => by cases h) (fun h => by omega)
  | succ calls ih =>
    by_cases hne : buf = []
    · subst hne
      show some [] = some l ↔ _
      rw [Option.some.injEq, eq_comm, items_nil]
      exact ⟨fun h => ⟨Nat.succ_pos _, h⟩, fun h => h.2⟩
    · rw [iterBatch, nextItem_cons hne]
      rw [Option.map_eq_some_iff, items_cons hne, chunks_drop hne]
      constructor
      · rintro ⟨rest, hrest, rfl⟩
        obtain ⟨hcalls, rfl⟩ := ih.mp hrest
        exact ⟨by omega, rfl⟩
      · rintro ⟨hcalls, rfl⟩
        exact ⟨_, ih.mpr ⟨by omega, rfl⟩, rfl⟩

/-- **The eager decoder stops at the first chunk that is no event.** -/
theorem decodeEvents_eq_mapM {k n : ℕ} (hlen : buf.length = inputEventLen * k)
    (hn : k ≤ n) : decodeEvents n buf = (items buf).mapM id := by
  induction k generalizing n buf with
  | zero =>
    obtain rfl := List.length_eq_zero_iff.mp hlen
    rw [decodeEvents_nil, items_nil]
    rfl
  | succ k ih =>
    obtain ⟨n, rfl⟩ : ∃ m, n = m + 1 := ⟨n - 1, by omega⟩
    have hne : buf ≠ [] := by
      rintro rfl
      simp [inputEventLen] at hlen
    have hempty : buf.isEmpty = false := by
      rw [List.isEmpty_eq_false_iff]
      exact hne
    rw [Nat.mul_succ] at hlen
    have htake : (buf.take inputEventLen).length = inputEventLen := by
      rw [List.length_take]
      omega
    obtain ⟨value, hvalue⟩ := Reads.decode
    have hwhole : decode buf = (value (buf.take inputEventLen)).map fun v =>
        (v, buf.drop inputEventLen) := by
      rw [← hvalue _ _ htake, List.take_append_drop]
    have hchunk : chunkItem buf 0 = value (buf.take inputEventLen) := by
      have halone := hvalue _ [] htake
      rw [List.append_nil] at halone
      rw [chunkItem, Nat.mul_zero, List.drop_zero, htake, if_neg (lt_irrefl _), halone]
      cases value (buf.take inputEventLen) <;> rfl
    have hrest : decodeEvents n (buf.drop inputEventLen) =
        (items (buf.drop inputEventLen)).mapM id :=
      ih (by rw [List.length_drop]; omega) (by omega)
    rw [items_cons hne, List.mapM_cons, hchunk, ← hrest, decodeEvents, hempty, hwhole]
    cases value (buf.take inputEventLen) <;> rfl

theorem decodeBatch_eq_mapM (hmod : buf.length % inputEventLen = 0) :
    decodeBatch buf = (items buf).mapM id := by
  obtain ⟨k, hk⟩ := Nat.dvd_of_mod_eq_zero hmod
  rw [decodeBatch_eq hk, decodeEvents_eq_mapM hk]
  rw [hk]
  exact Nat.le_mul_of_pos_left k (by decide)

theorem ragged_mem (hmod : buf.length % inputEventLen ≠ 0) : ∃ e, .error e ∈ items buf := by
  refine ⟨.truncated inputEventLen (buf.length % inputEventLen), ?_⟩
  have hmem : buf.length / inputEventLen ∈ List.range (chunks buf) := by
    rw [List.mem_range]
    unfold chunks
    unfold inputEventLen at *
    omega
  refine List.mem_map.mpr ⟨_, hmem, ?_⟩
  have hlen : ((buf.drop (inputEventLen * (buf.length / inputEventLen))).take
      inputEventLen).length = buf.length % inputEventLen := by
    rw [List.length_take, List.length_drop]
    unfold inputEventLen
    omega
  have hlt : buf.length % inputEventLen < inputEventLen := Nat.mod_lt _ (by decide)
  rw [chunkItem, hlen, if_pos hlt]

/-- **Reading a batch piece by piece.**  Both decoders come to an end.  The eager one returns a list
just when the iterator yields its events and nothing else; when it fails, the iterator yields the
events before the first chunk that is none, and then its error.  The iterator yields one item for
every chunk whatever the ones before it were, so that it goes on after a malformed event, but not
after a ragged tail. -/
theorem iter_batch_agrees (buf : List UInt8) :
    (∀ calls, chunks buf < calls → iterBatch calls buf = some (items buf)) ∧
    (∀ rounds, buf.length ≤ rounds → decodeEvents rounds buf = decodeEvents buf.length buf) ∧
    (∀ es, decodeBatch buf = .ok es ↔ items buf = es.map .ok) ∧
    ∀ e, decodeBatch buf = .error e → ∃ (es : List InputEvent) (e' : ProtoError)
      (after : List BatchItem), items buf = es.map .ok ++ .error e' :: after ∧
        (buf.length % inputEventLen = 0 → e' = e) := by
  refine ⟨fun calls hcalls => iterBatch_iff.mpr ⟨hcalls, rfl⟩,
    fun rounds hrounds => decodeEvents_rounds hrounds le_rfl, ?_, ?_⟩
  · intro es
    by_cases hmod : buf.length % inputEventLen = 0
    · rw [decodeBatch_eq_mapM hmod, mapM_eq_ok]
    · obtain ⟨e, he⟩ := ragged_mem hmod
      refine iff_of_false (fun h => hmod ?_) (fun h => ?_)
      · rw [length_of_decodeBatch h, Nat.mul_mod_right]
      · rw [h] at he
        obtain ⟨v, -, hv⟩ := List.mem_map.mp he
        cases hv
  · intro e he
    by_cases hmod : buf.length % inputEventLen = 0
    · rw [decodeBatch_eq_mapM hmod] at he
      obtain ⟨es, after, hitems⟩ := mapM_eq_error he
      exact ⟨es, e, after, hitems, fun _ => rfl⟩
    · -- Some item is an error, so the items do not all come out.
      obtain ⟨e₁, he₁⟩ := ragged_mem hmod
      cases hm : (items buf).mapM id with
      | ok es =>
        rw [mapM_eq_ok.mp hm] at he₁
        obtain ⟨v, -, hv⟩ := List.mem_map.mp he₁
        cases hv
      | error e' =>
        obtain ⟨es, after, hitems⟩ := mapM_eq_error hm
        exact ⟨es, e', after, hitems, fun h => absurd h hmod⟩

/-- An event of no kind in front of one that is fine. -/
def spoilt : List UInt8 := List.replicate 32 0 ++ farRight

/-- The iterator does not stop at an error: it yields the event behind it. -/
theorem iter_batch_goes_on : ¬ ∀ buf e, decodeBatch buf = .error e →
    ∃ (calls : ℕ) (es : List InputEvent) (e' : ProtoError),
      iterBatch calls buf = some (es.map .ok ++ [.error e']) := by
  intro hall
  have hbad : decodeBatch spoilt = .error (.invalidValue "input kind" "0") := by decide +kernel
  obtain ⟨calls, es, e', hyields⟩ := hall spoilt _ hbad
  have hitems := (iterBatch_iff.mp hyields).2
  -- The last item is an event.
  have hlast : (items spoilt).getLast?.map Except.isOk = some true := by decide +kernel
  rw [← hitems, List.getLast?_concat] at hlast
  cases hlast

end InputEvent

end NebulaDesk
