/-
Records on an ordered stream (`ndp-transport/src/wire.rs`,
`ndp-transport/src/session.rs`).

`wireOf` is what a list of sealed messages looks like on the wire, frame after
frame.  `readFramed_framed` says that a reader in front of a frame never takes
anything but that record, and `openRecord_next` that an opener which has opened
the counters below `n` opens the record with counter `n`.
-/
import NebulaDesk.Transport.Ordered

namespace NebulaDesk

open Bytes

namespace SealedMessage

def header (e : SealedMessage) : MsgHeader := { e.message.header with seq := UInt32.ofNat e.seq }

/-- The wire record of a sealed message. -/
def record (aead : Aead) (c : Channel) (e : SealedMessage) : List UInt8 :=
  e.header.toBytes ++
    aead.cipher.encrypt (nonceFor c e.seq) e.header.toBytes e.message.payload

/-- The record behind its length prefix. -/
def framed (aead : Aead) (c : Channel) (e : SealedMessage) : List UInt8 :=
  toLeBytes lengthPrefixLen (e.record aead c).length ++ e.record aead c

/-- What the peer's reader reports of it. -/
def heard (c : Channel) (e : SealedMessage) : Except TransportError Incoming :=
  .ok ⟨c, e.header, e.message.payload⟩

@[simp] theorem header_version (e : SealedMessage) : e.header.version = protocolVersion := rfl

theorem length_record (aead : Aead) (c : Channel) (e : SealedMessage) :
    (e.record aead c).length = e.message.payload.length + (headerLen + aeadTagLen) := by
  rw [record, List.length_append, MsgHeader.length_toBytes, aead.cipher.length_encrypt]
  omega

theorem length_framed (aead : Aead) (c : Channel) (e : SealedMessage) :
    (e.framed aead c).length = lengthPrefixLen + (e.record aead c).length := by
  rw [framed, List.length_append, length_toLeBytes]

end SealedMessage

open SealedMessage

/-- The bytes of a list of sealed messages, frame after frame. -/
def wireOf (aead : Aead) (c : Channel) (log : List SealedMessage) : List UInt8 :=
  (log.map (framed aead c)).flatten

section Wire

variable {aead : Aead} {c : Channel}

@[simp] theorem wireOf_nil : wireOf aead c [] = [] := rfl

@[simp] theorem wireOf_append (log more : List SealedMessage) :
    wireOf aead c (log ++ more) = wireOf aead c log ++ wireOf aead c more := by
  rw [wireOf, List.map_append, List.flatten_append, wireOf, wireOf]

@[simp] theorem wireOf_singleton (e : SealedMessage) : wireOf aead c [e] = framed aead c e := by
  rw [wireOf, List.map_singleton, List.flatten_singleton]

theorem wireOf_take_succ (aead : Aead) (c : Channel) {log : List SealedMessage} {n : ℕ} (h : n < log.length) :
    wireOf aead c (log.take (n + 1)) =
      wireOf aead c (log.take n) ++ framed aead c (log.get ⟨n, h⟩) := by
  rw [List.take_add_one, List.getElem?_eq_getElem h, wireOf_append, Option.toList_some,
    wireOf_singleton, List.get_eq_getElem]

end Wire

/-! ### Reading one frame -/

section Reading

variable {aead : Aead} {c : Channel} {e : SealedMessage} {bytes rest : List UInt8}

/-- In front of a frame the reader waits, fails with the connection, refuses the
length, or takes exactly that record. -/
theorem readFramed_framed (limit : ℕ) (hsize : (e.record aead c).length < 2 ^ 32)
    (hpre : bytes <+: framed aead c e ++ rest) {tail : StreamTail} (htail : tail ≠ .finished) :
    (tail = .more ∧ readFramed limit bytes tail = none) ∨
    (∃ error, tail = .failed error ∧ readFramed limit bytes tail = some (.error (.read error))) ∨
    readFramed limit bytes tail =
      some (.error (.recordTooLarge (e.record aead c).length limit)) ∨
    ∃ after, bytes = framed aead c e ++ after ∧
      readFramed limit bytes tail = some (.ok (some (e.record aead c, after))) := by
  unfold readFramed
  by_cases hshort : bytes.length < lengthPrefixLen
  · rw [if_pos hshort]
    cases tail with
    | more => exact .inl ⟨rfl, rfl⟩
    | finished => exact absurd rfl htail
    | failed error => exact .inr (.inl ⟨error, rfl, rfl⟩)
  rw [if_neg hshort]
  -- the whole length prefix is there
  have hle : lengthPrefixLen ≤ bytes.length := Nat.le_of_not_lt hshort
  obtain ⟨behind, hbehind⟩ := hpre
  have hhead : bytes.take lengthPrefixLen =
      toLeBytes lengthPrefixLen (e.record aead c).length := by
    have htake := congrArg (List.take lengthPrefixLen) hbehind
    rwa [List.take_append_of_le_length hle, framed, List.append_assoc,
      List.take_left' (length_toLeBytes _ _)] at htake
  have hbody : bytes.drop lengthPrefixLen ++ behind = e.record aead c ++ rest := by
    have hdrop := congrArg (List.drop lengthPrefixLen) hbehind
    rwa [List.drop_append_of_le_length hle, framed, List.append_assoc,
      List.drop_left' (length_toLeBytes _ _)] at hdrop
  have hlen : fromLeBytes (bytes.take lengthPrefixLen) = (e.record aead c).length := by
    rw [hhead]
    exact fromLeBytes_toLeBytes_of_lt hsize
  have hbytes : bytes = toLeBytes lengthPrefixLen (e.record aead c).length ++
      bytes.drop lengthPrefixLen := by
    rw [← hhead, List.take_append_drop]
  simp only [hlen]
  generalize bytes.drop lengthPrefixLen = body at hbody hbytes ⊢
  unfold checkLen
  by_cases hbig : (e.record aead c).length > limit
  · rw [if_pos hbig]
    exact .inr (.inr (.inl rfl))
  rw [if_neg hbig]
  by_cases hpart : body.length < (e.record aead c).length
  · rw [if_pos hpart]
    cases tail with
    | more => exact .inl ⟨rfl, rfl⟩
    | finished => exact absurd rfl htail
    | failed error => exact .inr (.inl ⟨error, rfl, rfl⟩)
  rw [if_neg hpart]
  have hrecord : body.take (e.record aead c).length = e.record aead c := by
    have htake := congrArg (List.take (e.record aead c).length) hbody
    rwa [List.take_append_of_le_length (Nat.le_of_not_lt hpart), List.take_left' rfl] at htake
  refine .inr (.inr (.inr ⟨body.drop (e.record aead c).length, ?_, by rw [hrecord]⟩))
  have hparts := List.take_append_drop (e.record aead c).length body
  rw [hrecord] at hparts
  rw [framed, List.append_assoc, hparts]
  exact hbytes

theorem readFramed_nil (limit : ℕ) {tail : StreamTail} (htail : tail ≠ .finished) :
    (tail = .more ∧ readFramed limit [] tail = none) ∨
    ∃ error, tail = .failed error ∧ readFramed limit [] tail = some (.error (.read error)) := by
  cases tail with
  | more => exact .inl ⟨rfl, rfl⟩
  | finished => exact absurd rfl htail
  | failed error => exact .inr ⟨error, rfl, rfl⟩

end Reading

theorem openRecord_next {aead : Aead} (haead : aead.Correct) {o : RecordOpener} {c : Channel}
    {e : SealedMessage} {n : ℕ} (hh : (o.channels c).Holds 0 {i | i < n})
    (hn : n < 2 ^ 64) (hseq : e.seq = n) :
    ∃ st : ChannelState, st.Holds 0 {i | i < n + 1} ∧
      o.openRecord aead.decrypt c (e.record aead c) =
        (.ok (e.header, e.message.payload), ⟨Function.update o.channels c st⟩) := by
  have hdecrypt : aead.decrypt (nonceFor c n) e.header.toBytes
      (aead.cipher.encrypt (nonceFor c e.seq) e.header.toBytes e.message.payload) =
        some e.message.payload := by
    rw [← hseq]
    exact haead _ _ _
  -- every counter below `n` has been opened, and `n` is the next one
  obtain ⟨st, hopen, hst⟩ := ChannelState.openWith_eq_ok c
    (fun seq => aead.decrypt (nonceFor c seq) e.header.toBytes
      (aead.cipher.encrypt (nonceFor c e.seq) e.header.toBytes e.message.payload))
    hh
    (by
      intro t ht
      have hlt : t < n := ht
      omega) hn
    (by
      intro hempty
      by_contra hpos
      have hmem : n - 1 ∈ ({i | i < n} : Set ℕ) := by
        show n - 1 < n
        omega
      rw [hempty] at hmem
      exact hmem)
    (by
      rintro ⟨t, ht⟩
      have hlt : t < n := ht
      refine ⟨n - 1, ?_, by omega⟩
      show n - 1 < n
      omega)
    (by
      intro t ht
      have hlt : t < n := ht
      omega)
    (.inl fun t ht => ht) hdecrypt
  refine ⟨st, ?_, ?_⟩
  · convert hst using 1
    ext i
    show i < n + 1 ↔ i = n ∨ i < n
    omega
  · have hlen : ¬ (e.record aead c).length < headerLen + aeadTagLen := by
      rw [length_record]
      omega
    have hseq' : e.header.seq = UInt32.ofNat n := by
      rw [← hseq]
      rfl
    rw [RecordOpener.openRecord, if_neg hlen, record, MsgHeader.split_toBytes (header_version e)]
    simp only [hseq', hopen]
    rfl

end NebulaDesk
