/-
The sealed record layer (`ndp-crypto/src/record.rs`).

`RecordSealer.sealRecord` numbers records per channel and seals them under the nonce
`channel ‖ counter`; `RecordOpener.openRecord` rebuilds the counter from the 32
bits on the wire, checks the replay window, authenticates and only then commits
the window and the roll-over state.  The cipher and its decryption are
parameters; `ChannelState.openWith` is the part of `open` that runs under the
channel's mutex, and `ChannelState.Holds` says which counters it has opened.
-/
import NebulaDesk.Crypto.Replay
import NebulaDesk.Proto.Header

namespace NebulaDesk

open Bytes

def aeadTagLen : ℕ := 16

/-- Errors raised by the record layer. -/
inductive CryptoError
  | decrypt (channel : String)
  | replay (channel : String) (seq : ℕ)
  | shortRecord (len : ℕ)
  | proto (error : ProtoError)
deriving DecidableEq, Repr

/-- The 12-byte nonce: channel id (4 bytes) then sequence (8 bytes). -/
def nonceFor (channel : Channel) (seq : ℕ) : List UInt8 :=
  toLeBytes 4 channel.id ++ toLeBytes 8 seq

theorem nonceFor_inj {c d : Channel} {s t : ℕ} (hs : s < 2 ^ 64) (ht : t < 2 ^ 64)
    (h : nonceFor c s = nonceFor d t) : c = d ∧ s = t := by
  obtain ⟨h1, h2⟩ := List.append_inj h (by simp)
  have hc := c.id_lt
  have hd := d.id_lt
  exact ⟨Channel.id_inj (toLeBytes_inj (by omega) (by omega) h1), toLeBytes_inj hs ht h2⟩

/-- The keyed AEAD of one direction. -/
structure Cipher where
  encrypt : (nonce aad msg : List UInt8) → List UInt8
  length_encrypt : ∀ nonce aad msg, (encrypt nonce aad msg).length = msg.length + aeadTagLen

/-- Seals outbound records, tracking one sequence counter per channel. -/
structure RecordSealer where
  counters : Channel → ℕ

namespace RecordSealer

def new : RecordSealer := ⟨fun _ => 0⟩

/-- Seal `payload` into a complete wire record: header, ciphertext, tag. -/
def sealRecord (cipher : Cipher) (s : RecordSealer) (channel : Channel) (header : MsgHeader)
    (payload : List UInt8) : List UInt8 × RecordSealer :=
  let seq := s.counters channel
  let header := { header with seq := UInt32.ofNat seq }
  let aad := header.toBytes
  (aad ++ cipher.encrypt (nonceFor channel seq) aad payload,
    ⟨Function.update s.counters channel ((seq + 1) % 2 ^ 64)⟩)

end RecordSealer

structure ChannelState where
  expander : SeqExpander
  window : ReplayWindow
deriving DecidableEq, Repr

namespace ChannelState

/-- Control and Input ride one ordered stream each; every other channel is
delivered over concurrent streams or datagrams. -/
def new (channel : Channel) : ChannelState where
  expander := SeqExpander.new
  window := match channel with
    | .control | .input => ReplayWindow.strict
    | _ => ReplayWindow.new

/-- The critical section of `open`: expand, check, authenticate, commit. -/
def openWith {α : Type} (st : ChannelState) (channel : Channel) (wire : UInt32)
    (decrypt : ℕ → Option α) : Except CryptoError α × ChannelState :=
  let seq := st.expander.expand wire
  if !st.window.wouldAccept seq then (.error (.replay channel.name seq), st)
  else
    match decrypt seq with
    | none => (.error (.decrypt channel.name), st)
    | some plaintext =>
      let (accepted, window) := st.window.accept seq
      if !accepted then (.error (.replay channel.name seq), { st with window := window })
      else (.ok plaintext, { expander := st.expander.commit seq, window := window })

end ChannelState

structure RecordOpener where
  channels : Channel → ChannelState

namespace RecordOpener

def new : RecordOpener := ⟨ChannelState.new⟩

def openRecord (decrypt : (nonce aad ciphertext : List UInt8) → Option (List UInt8))
    (o : RecordOpener) (channel : Channel) (record : List UInt8) :
    Except CryptoError (MsgHeader × List UInt8) × RecordOpener :=
  if record.length < headerLen + aeadTagLen then (.error (.shortRecord record.length), o)
  else
    match MsgHeader.split record with
    | .error e => (.error (.proto e), o)
    | .ok (header, ciphertext) =>
      let aad := header.toBytes
      let (result, state) := (o.channels channel).openWith channel header.seq
        fun seq => decrypt (nonceFor channel seq) aad ciphertext
      (result.map fun plaintext => (header, plaintext),
        ⟨Function.update o.channels channel state⟩)

end RecordOpener

/-! ### One channel's replay state -/

namespace ChannelState

/-- The channel state represents the set `S` of opened counters. -/
structure Holds (st : ChannelState) (width : ℕ) (S : Set ℕ) : Prop where
  window : st.window.Holds S
  expander : st.expander.Holds S
  width_eq : st.window.width = width

/-- The window width of a channel: 0 where records arrive in order, else 64. -/
def widthOf : Channel → ℕ
  | .control | .input => 0
  | _ => 64

theorem holds_new (channel : Channel) : (new channel).Holds (widthOf channel) ∅ := by
  cases channel <;>
    exact ⟨ReplayWindow.holds_withWidth _, SeqExpander.holds_new, rfl⟩

variable {α : Type} {st : ChannelState} {width : ℕ} {S : Set ℕ} {channel : Channel}
  {wire : UInt32} {decrypt : ℕ → Option α}

variable {st' : ChannelState}

theorem openWith_error {e : CryptoError}
    (h : st.openWith channel wire decrypt = (.error e, st')) : st' = st := by
  unfold openWith at h
  by_cases hw : st.window.wouldAccept (st.expander.expand wire) = true
  · simp only [hw, Bool.not_true, Bool.false_eq_true, if_false] at h
    split at h
    · exact (Prod.mk.inj h).2.symm
    · rw [show (st.window.accept (st.expander.expand wire)).1 = true from by
        rw [ReplayWindow.accept_fst, hw]] at h
      simp at h
  · simp only [hw, Bool.not_false, if_true] at h
    exact (Prod.mk.inj h).2.symm

/-- What is opened was admitted by the window and authenticated under the
expanded counter, which is then recorded. -/
theorem openWith_ok {a : α} (hh : st.Holds width S)
    (h : st.openWith channel wire decrypt = (.ok a, st')) :
    decrypt (st.expander.expand wire) = some a ∧ st.expander.expand wire ∉ S ∧
      st'.Holds width (insert (st.expander.expand wire) S) := by
  unfold openWith at h
  by_cases hw : st.window.wouldAccept (st.expander.expand wire) = true
  · simp only [hw, Bool.not_true, Bool.false_eq_true, if_false] at h
    split at h
    · simp at h
    · rename_i plaintext hd
      rw [show (st.window.accept (st.expander.expand wire)).1 = true from by
        rw [ReplayWindow.accept_fst, hw]] at h
      simp only [Bool.not_true, Bool.false_eq_true, if_false, Prod.mk.injEq,
        Except.ok.injEq] at h
      obtain ⟨rfl, rfl⟩ := h
      refine ⟨hd, fun hmem => ?_, hh.window.accept hw, hh.expander.commit _, ?_⟩
      · rw [hh.window.not_wouldAccept hmem] at hw
        exact absurd hw (by simp)
      · exact (ReplayWindow.accept_width _ _).trans hh.width_eq
  · simp only [hw, Bool.not_false, if_true] at h
    simp at h

theorem openWith_admits {a : α} (hh : st.Holds width S)
    (h : st.openWith channel wire decrypt = (.ok a, st')) :
    ReplayWindow.Admits width S (st.expander.expand wire) := by
  rw [← hh.width_eq, ← ReplayWindow.wouldAccept_iff hh.window]
  by_contra hw
  rw [Bool.not_eq_true] at hw
  unfold openWith at h
  simp [hw] at h

/-- A counter the window admits, near enough to be expanded, opens whatever was
sealed under it. -/
theorem openWith_eq_ok (channel : Channel) (decrypt : ℕ → Option α) {s : ℕ} {a : α}
    (hh : st.Holds width S) (hS : ∀ t ∈ S, t < 2 ^ 64)
    (hs : s < 2 ^ 64) (hfirst : S = ∅ → s < 2 ^ 32)
    (hup : S.Nonempty → ∃ t ∈ S, s < t + 2 ^ 31) (hdown : ∀ t ∈ S, t < s + 2 ^ 31)
    (hadm : ReplayWindow.Admits width S s) (hd : decrypt s = some a) :
    ∃ st', st.openWith channel (UInt32.ofNat s) decrypt = (.ok a, st') ∧
      st'.Holds width (insert s S) := by
  have hexp : st.expander.expand (UInt32.ofNat s) = s := by
    by_cases hst : st.expander.started = true
    · have hmem := hh.expander.highest_mem hst
      refine SeqExpander.expand_eq hs (hS _ hmem) (by simp [hst]) fun _ => ⟨?_, hdown _ hmem⟩
      obtain ⟨t, ht, hlt⟩ := hup (hh.expander.started_iff.mp hst)
      have := hh.expander.le_highest t ht
      omega
    · have hemp : S = ∅ := by
        rw [← Set.not_nonempty_iff_eq_empty]
        exact fun hc => hst (hh.expander.started_iff.mpr hc)
      have hf : st.expander.started = false := by simpa using hst
      unfold SeqExpander.expand
      simp only [hf, Bool.not_false, if_true]
      rw [SeqExpander.toNat_ofNat_low, Nat.mod_eq_of_lt (hfirst hemp)]
  have hw : st.window.wouldAccept s = true := by
    rw [ReplayWindow.wouldAccept_iff hh.window, hh.width_eq]
    exact hadm
  have hacc : (st.window.accept s).1 = true := by rw [ReplayWindow.accept_fst, hw]
  refine ⟨{ expander := st.expander.commit s, window := (st.window.accept s).2 }, ?_, ?_⟩
  · unfold openWith
    simp [hexp, hw, hd, hacc]
  · exact ⟨hh.window.accept hw, hh.expander.commit s,
      (ReplayWindow.accept_width _ _).trans hh.width_eq⟩

end ChannelState

end NebulaDesk
