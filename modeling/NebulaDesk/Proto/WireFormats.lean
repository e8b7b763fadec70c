/-
Round trips of the binary formats.

A batch of `k` events has the layout of an event `k` times over; its decoder has
no rest to return, so what follows a batch is read as more events
(`decodeBatch_append`).
-/
import NebulaDesk.Proto.Codecs

namespace NebulaDesk

open Bytes Layout

namespace InputEvent

theorem len_layout : Layout.len inputEventLayout = inputEventLen := rfl

theorem toBytes_ne_nil (e : InputEvent) : e.toBytes ≠ [] := by
  simp [toBytes, toLeBytes]

theorem length_encodeBatch (es : List InputEvent) :
    (encodeBatch es).length = inputEventLen * es.length := by
  induction es with
  | nil => rfl
  | cons e es ih =>
    have hlen : e.toBytes.length = inputEventLen := by
      rw [toBytes_spell, length_spell, len_layout]
    rw [encodeBatch, List.flatMap_cons, List.length_append, ← encodeBatch, ih, hlen,
      List.length_cons, Nat.mul_succ, Nat.add_comm]

variable {buf : List UInt8} {es : List InputEvent}

theorem decodeEvents_succ {n : ℕ} (hne : buf ≠ []) :
    decodeEvents (n + 1) buf = .ok es ↔
      ∃ e rest es', decode buf = .ok (e, rest) ∧ decodeEvents n rest = .ok es' ∧ es = e :: es' := by
  have hempty : buf.isEmpty = false := by
    rw [List.isEmpty_eq_false_iff]
    exact hne
  simp only [decodeEvents, hempty, Bool.false_eq_true, if_false, bind_eq_ok, Prod.exists]
  constructor
  · rintro ⟨e, rest, he, es', hes', hout⟩
    exact ⟨e, rest, es', he, hes', (Except.ok.inj hout).symm⟩
  · rintro ⟨e, rest, es', he, hes', rfl⟩
    exact ⟨e, rest, he, es', hes', rfl⟩

theorem decodeEvents_nil (n : ℕ) : decodeEvents n [] = .ok [] := by
  cases n <;> rfl

/-- **What the loop returns spells the batch it read.** -/
theorem reencode_of_decodeEvents {k n : ℕ} (hlen : buf.length = inputEventLen * k) (hn : k ≤ n)
    (h : decodeEvents n buf = .ok es) :
    (∀ e ∈ es, e.Valid) ∧ es.length = k ∧
      encodeBatch es = canonical (copies k inputEventLayout) buf := by
  induction k generalizing n buf es with
  | zero =>
    obtain rfl := List.length_eq_zero_iff.mp hlen
    rw [decodeEvents_nil, Except.ok.injEq] at h
    subst h
    exact ⟨by simp, rfl, rfl⟩
  | succ k ih =>
    obtain ⟨n, rfl⟩ : ∃ m, n = m + 1 := ⟨n - 1, by omega⟩
    have hne : buf ≠ [] := by
      rintro rfl
      simp [inputEventLen] at hlen
    obtain ⟨e, rest, es', he, hes', rfl⟩ := (decodeEvents_succ hne).mp h
    obtain ⟨hvalid, -, rfl, henc⟩ := faithful.reencode buf e rest he
    have hrest : (buf.drop (Layout.len inputEventLayout)).length = inputEventLen * k := by
      rw [List.length_drop, hlen, len_layout, Nat.mul_succ, Nat.add_sub_cancel]
    obtain ⟨hvalids, hcount, hencs⟩ := ih hrest (by omega) hes'
    refine ⟨?_, by rw [List.length_cons, hcount], ?_⟩
    · intro e' he'
      rcases List.mem_cons.mp he' with rfl | he'
      · exact hvalid
      · exact hvalids e' he'
    · rw [encodeBatch, List.flatMap_cons, ← encodeBatch, henc, hencs, copies_succ,
        canonical_append]

/-- **The loop succeeds exactly on batches of acceptable events.** -/
theorem decodeEvents_accepts {k n : ℕ} (hlen : buf.length = inputEventLen * k) (hn : k ≤ n) :
    (∃ es, decodeEvents n buf = .ok es) ↔ accepted (copies k inputEventLayout) buf = true := by
  induction k generalizing n buf with
  | zero =>
    obtain rfl := List.length_eq_zero_iff.mp hlen
    exact ⟨fun _ => rfl, fun _ => ⟨[], decodeEvents_nil n⟩⟩
  | succ k ih =>
    obtain ⟨n, rfl⟩ : ∃ m, n = m + 1 := ⟨n - 1, by omega⟩
    have hne : buf ≠ [] := by
      rintro rfl
      simp [inputEventLen] at hlen
    have hrest : (buf.drop (Layout.len inputEventLayout)).length = inputEventLen * k := by
      rw [List.length_drop, hlen, len_layout, Nat.mul_succ, Nat.add_sub_cancel]
    rw [copies_succ, accepted_append, Bool.and_eq_true, ← ih hrest (n := n) (by omega)]
    constructor
    · rintro ⟨es, h⟩
      obtain ⟨e, rest, es', he, hes', -⟩ := (decodeEvents_succ hne).mp h
      obtain ⟨-, -, rfl, -⟩ := faithful.reencode buf e rest he
      exact ⟨(faithful.accepts.mp ⟨e, _, he⟩).2, es', hes'⟩
    · rintro ⟨hacc, es', hes'⟩
      have hroom : Layout.len inputEventLayout ≤ buf.length := by
        rw [hlen, len_layout, Nat.mul_succ]
        omega
      obtain ⟨e, rest, he⟩ := faithful.accepts.mpr ⟨hroom, hacc⟩
      obtain ⟨-, -, rfl, -⟩ := faithful.reencode buf e rest he
      exact ⟨e :: es', (decodeEvents_succ hne).mpr ⟨e, _, es', he, hes', rfl⟩⟩

theorem decodeEvents_append (hes : ∀ e ∈ es, e.Valid) {n : ℕ}
    {p : List UInt8} {qs : List InputEvent} :
    decodeEvents (es.length + n) (encodeBatch es ++ p) = .ok qs ↔
      ∃ ps, decodeEvents n p = .ok ps ∧ qs = es ++ ps := by
  induction es generalizing qs with
  | nil => simp [encodeBatch]
  | cons e es ih =>
    have hne : encodeBatch (e :: es) ++ p ≠ [] := by
      rw [encodeBatch, List.flatMap_cons]
      simp [toBytes_ne_nil]
    have hbytes : encodeBatch (e :: es) ++ p = e.toBytes ++ (encodeBatch es ++ p) := by
      rw [encodeBatch, List.flatMap_cons, List.append_assoc, ← encodeBatch]
    have hdec := faithful.roundtrip e (hes e (by simp)) (encodeBatch es ++ p)
    rw [List.length_cons, Nat.add_right_comm, decodeEvents_succ hne, hbytes]
    have ih' := @ih fun e' he' => hes e' (List.mem_cons_of_mem e he')
    constructor
    · rintro ⟨e', rest, es', he', hes', rfl⟩
      obtain ⟨rfl, rfl⟩ := Prod.mk.inj (Except.ok.inj (hdec.symm.trans he'))
      obtain ⟨ps, hps, rfl⟩ := ih'.mp hes'
      exact ⟨ps, hps, rfl⟩
    · rintro ⟨ps, hps, rfl⟩
      exact ⟨e, _, es ++ ps, hdec, ih'.mpr ⟨ps, hps, rfl⟩, rfl⟩

theorem decodeEvents_rounds {n m : ℕ} (hn : buf.length ≤ n)
    (hm : buf.length ≤ m) : decodeEvents n buf = decodeEvents m buf := by
  induction n generalizing m buf with
  | zero =>
    obtain rfl := List.length_eq_zero_iff.mp (Nat.le_zero.mp hn)
    rw [decodeEvents_nil, decodeEvents_nil]
  | succ n ih =>
    by_cases hne : buf = []
    · rw [hne, decodeEvents_nil, decodeEvents_nil]
    · have hpos := List.length_pos_of_ne_nil hne
      obtain ⟨m, rfl⟩ : ∃ k, m = k + 1 := ⟨m - 1, by omega⟩
      simp only [decodeEvents]
      cases hd : decode buf with
      | error e => rfl
      | ok p =>
        obtain ⟨-, hroom, hrest, -⟩ := faithful.reencode buf p.1 p.2 hd
        have hshort : p.2.length + 32 ≤ buf.length := by
          rw [len_layout, inputEventLen] at hroom hrest
          rw [hrest, List.length_drop]
          omega
        simp only [bind, Except.bind]
        rw [ih (m := m) (by omega) (by omega)]

theorem decodeBatch_eq {k : ℕ} (hlen : buf.length = inputEventLen * k) :
    decodeBatch buf = decodeEvents buf.length buf := by
  rw [decodeBatch, if_neg (by rw [hlen, Nat.mul_mod_right]; simp)]

theorem length_of_decodeBatch
    (h : decodeBatch buf = .ok es) : buf.length = inputEventLen * (buf.length / inputEventLen) := by
  unfold decodeBatch at h
  split at h
  · cases h
  · rename_i hmod
    rw [not_not] at hmod
    exact (Nat.mul_div_cancel' (Nat.dvd_of_mod_eq_zero hmod)).symm

/-- **What follows a batch is read as a batch.** -/
theorem decodeBatch_append (hes : ∀ e ∈ es, e.Valid) {p : List UInt8} {qs : List InputEvent} :
    decodeBatch (encodeBatch es ++ p) = .ok qs ↔ ∃ ps, decodeBatch p = .ok ps ∧ qs = es ++ ps := by
  have hlen := length_encodeBatch es
  by_cases hp : p.length % inputEventLen = 0
  · obtain ⟨k, hk⟩ := Nat.dvd_of_mod_eq_zero hp
    have htotal : (encodeBatch es ++ p).length = inputEventLen * (es.length + k) := by
      rw [List.length_append, hlen, hk, Nat.mul_add]
    rw [decodeBatch_eq hk, decodeBatch_eq htotal, ← decodeEvents_append hes,
      decodeEvents_rounds le_rfl (m := es.length + (encodeBatch es ++ p).length) (by omega),
      decodeEvents_append hes, decodeEvents_append hes]
    have hle : p.length ≤ (encodeBatch es ++ p).length := by
      rw [List.length_append]
      omega
    rw [decodeEvents_rounds hle le_rfl]
  · constructor
    · intro h
      have htotal := length_of_decodeBatch h
      rw [List.length_append, hlen] at htotal
      simp only [inputEventLen] at htotal hp
      omega
    · rintro ⟨ps, h, -⟩
      exact absurd (by rw [length_of_decodeBatch h, Nat.mul_mod_right]) hp

/-- What a batch decoder owes its encoder. -/
structure FaithfulBatch : Prop where
  roundtrip : ∀ es : List InputEvent, (∀ e ∈ es, e.Valid) →
    decodeBatch (encodeBatch es) = .ok es
  append : ∀ es : List InputEvent, (∀ e ∈ es, e.Valid) → ∀ p qs,
    decodeBatch (encodeBatch es ++ p) = .ok qs ↔ ∃ ps, decodeBatch p = .ok ps ∧ qs = es ++ ps
  reencode : ∀ b es, decodeBatch b = .ok es →
    (∀ e ∈ es, e.Valid) ∧ b.length = inputEventLen * es.length ∧
      encodeBatch es = canonical (copies es.length inputEventLayout) b
  rejects : ∀ b, (∃ e, decodeBatch b = .error e) ↔
    b.length % inputEventLen ≠ 0 ∨
      accepted (copies (b.length / inputEventLen) inputEventLayout) b = false

theorem faithfulBatch : FaithfulBatch := by
  refine ⟨?_, fun es hes p qs => decodeBatch_append hes, ?_, ?_⟩
  · intro es hes
    have h := (decodeBatch_append (p := []) hes).mpr ⟨[], rfl, rfl⟩
    rwa [List.append_nil, List.append_nil] at h
  · intro b es h
    have hlen := length_of_decodeBatch h
    have hrounds : b.length / inputEventLen ≤ b.length := Nat.div_le_self _ _
    rw [decodeBatch_eq hlen] at h
    obtain ⟨hvalid, hcount, henc⟩ := reencode_of_decodeEvents hlen hrounds h
    rw [hcount]
    exact ⟨hvalid, hlen, henc⟩
  · intro b
    by_cases hmod : b.length % inputEventLen = 0
    · obtain ⟨k, hk⟩ := Nat.dvd_of_mod_eq_zero hmod
      have hdiv : b.length / inputEventLen = k := by
        rw [hk, Nat.mul_div_cancel_left k (by decide)]
      have hrounds : k ≤ b.length := hdiv ▸ Nat.div_le_self _ _
      have hno : (¬ ∃ e, decodeEvents b.length b = .error e) ↔
          ∃ es, decodeEvents b.length b = .ok es := by
        cases decodeEvents b.length b <;> simp
      rw [decodeBatch_eq hk, hdiv, ← not_iff_not, hno, decodeEvents_accepts hk hrounds, not_or,
        not_not, Bool.not_eq_false, and_iff_right hmod]
    · rw [decodeBatch, if_pos hmod]
      exact ⟨fun _ => .inl hmod, fun _ => ⟨_, rfl⟩⟩

end InputEvent

/-- **Every binary format round-trips.**  Valid values are read back in front of anything, what is
read is written back up to reserved bytes and clamped coordinates, and a decoder refuses exactly
what is too short or holds a value it does not take. -/
theorem wire_formats_faithful :
    Faithful headerLayout MsgHeader.Valid MsgHeader.toBytes MsgHeader.split ∧
    Faithful videoInfoLayout VideoFrameInfo.Valid VideoFrameInfo.toBytes VideoFrameInfo.split ∧
    Faithful (videoInfoLayout ++ surfaceFrameLayout)
      (fun p : VideoFrameInfo × SurfaceFrameInfo => p.1.Valid ∧ p.2.Valid)
      (fun p => p.1.framePayload (p.2.framePayload [])) splitScoped ∧
    Faithful audioInfoLayout AudioFrameInfo.Valid AudioFrameInfo.toBytes AudioFrameInfo.split ∧
    Faithful clipboardDataLayout ClipboardDataHeader.Valid ClipboardDataHeader.toBytes
      ClipboardDataHeader.split ∧
    Faithful fileChunkLayout FileChunkHeader.Valid FileChunkHeader.toBytes FileChunkHeader.split ∧
    -- An acknowledgement's decoder drops what follows it.
    Faithful fileAckLayout FileAck.Valid FileAck.toBytes
      (fun b => (FileAck.decode b).map fun a => (a, b.drop FileAck.len)) ∧
    Faithful inputEventLayout InputEvent.Valid InputEvent.toBytes InputEvent.decode ∧
    InputEvent.FaithfulBatch :=
  ⟨MsgHeader.faithful, VideoFrameInfo.faithful, splitScoped_faithful, AudioFrameInfo.faithful,
    ClipboardDataHeader.faithful, FileChunkHeader.faithful, FileAck.faithful, InputEvent.faithful,
    InputEvent.faithfulBatch⟩

/-- A pointer at twice the width of the display. -/
def farRight : List UInt8 :=
  [1, 0, 0, 0, 0, 0, 0, 0, 0, 0, 0, 0x40, 0, 0, 0, 0, 0, 0, 0, 0, 0, 0, 0, 0, 0, 0, 0, 0, 0, 0, 0, 0]

/-- A batch leaves no rest, and a clamped coordinate is not written back. -/
theorem batch_has_no_rest :
    InputEvent.decodeBatch (InputEvent.encodeBatch [] ++ [0]) = .error (.truncated 32 1) ∧
    ∃ e, InputEvent.decodeBatch farRight = .ok [e] ∧
      (InputEvent.encodeBatch [e])[11]? = some 0x3f ∧ farRight[11]? = some 0x40 := by
  refine ⟨by decide, ⟨.mouseMove, .none, 0, 0, 0, ⟨0x3f800000⟩, ⟨0⟩, ⟨0⟩, ⟨0⟩, 0, 0⟩, ?_, ?_, ?_⟩
  · decide
  · decide
  · decide

end NebulaDesk
