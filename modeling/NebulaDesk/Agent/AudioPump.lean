/-
Audio packets and the datagrams that carry them (`nebula-agent/src/session.rs`,
`ndp-transport/src/session.rs`, `ndp-transport/src/multipath.rs`).

The agent drops a packet that is larger than `max_audio_record`, "rather than failing the send and
taking the session down with it".  What is compared is the payload before it is sealed:
`max_audio_record` takes off the channel prefix and the envelope, but not the header and the tag of
the record.

* **`length_datagram`** — how long the datagram of a payload is;
* **`audioPacket_fits_iff`** — a packet that passes the check fits the datagram exactly if its size
  is not within the 32 bytes that were forgotten.
-/
import NebulaDesk.Multipath.System
import NebulaDesk.Proto.Frames

namespace NebulaDesk

open Bytes Multipath

/-- `Channel::priority`. -/
def Channel.priority : Channel → UInt8
  | .input => 40
  | .control => 30
  | .video => 20
  | .clipboard => 10
  | .file => 0
  | .audio => 20

def channelPrefixLen : ℕ := 4

def channelPrefix (channel : Channel) (urgency : UInt8) : List UInt8 :=
  toLeBytes 2 channel.id ++ [urgency, 0]

@[simp] theorem length_channelPrefix (channel : Channel) (urgency : UInt8) :
    (channelPrefix channel urgency).length = channelPrefixLen := by
  simp [channelPrefix, channelPrefixLen]

/-- `MsgFlags::DISCARDABLE`. -/
def MsgFlags.discardable : MsgFlags := ⟨4⟩

def AudioFrameInfo.framePayload (info : AudioFrameInfo) (packet : List UInt8) : List UInt8 :=
  info.toBytes ++ packet

theorem AudioFrameInfo.length_framePayload (info : AudioFrameInfo) (packet : List UInt8) :
    (info.framePayload packet).length = packet.length + 4 := by
  simp [framePayload, toBytes]
  omega

/-! ### Native sessions -/

/-- A native session, as far as its datagrams go. -/
structure DatagramEnd where
  sealer : RecordSealer
  maxRecord : ℕ
  /-- `quinn::Connection::max_datagram_size`: what fits a datagram on the path, if the peer
  supports them. -/
  maxDatagramSize : Option ℕ
  lost : Option ConnectionError
  /-- `quinn::Connection::send_datagram`. -/
  sendDatagram : List UInt8 → Except SendDatagramError Unit
  /-- On a connection that is there, what is longer than that size is too large, and nothing
  else. -/
  tooLarge_iff : ∀ buf, sendDatagram buf = .error .tooLarge ↔
    lost = none ∧ ∃ n, maxDatagramSize = some n ∧ n < buf.length

namespace DatagramEnd

/-- The datagram of a payload, before it is sent. -/
def datagram (cipher : Cipher) (header : MsgHeader) (payload : List UInt8) (d : DatagramEnd) :
    Except TransportError (List UInt8 × DatagramEnd) := do
  checkLen (payload.length + (headerLen + aeadTagLen)) d.maxRecord
  let (record, sealer) := d.sealer.sealRecord cipher .audio header payload
  return (channelPrefix .audio Channel.audio.priority ++ record, { d with sealer := sealer })

def sendDatagramNative (cipher : Cipher) (header : MsgHeader) (payload : List UInt8)
    (d : DatagramEnd) : Except TransportError Unit × DatagramEnd :=
  match d.datagram cipher header payload with
  | .error e => (.error e, d)
  | .ok (buf, d) =>
    match d.sendDatagram buf with
    | .error e => (.error (.datagram e), d)
    | .ok () => (.ok (), d)

variable {d : DatagramEnd}

theorem datagram_ok {d d' : DatagramEnd} (h : d.datagram cipher header payload = .ok (buf, d')) :
    buf.length = channelPrefixLen + headerLen + payload.length + aeadTagLen ∧
      d'.maxDatagramSize = d.maxDatagramSize ∧ d'.lost = d.lost := by
  unfold datagram at h
  cases hlen : checkLen (payload.length + (headerLen + aeadTagLen)) d.maxRecord with
  | error e =>
    rw [hlen] at h
    cases h
  | ok u =>
    rw [hlen] at h
    cases h
    refine ⟨?_, rfl, rfl⟩
    simp only [List.length_append, length_channelPrefix,
      MsgHeader.length_toBytes, cipher.length_encrypt]
    omega

theorem datagram_isOk_iff (cipher : Cipher) (header : MsgHeader) {payload : List UInt8} :
    (∃ buf d', d.datagram cipher header payload = .ok (buf, d')) ↔
      payload.length + (headerLen + aeadTagLen) ≤ d.maxRecord := by
  rw [← checkLen_ok]
  unfold datagram
  cases checkLen (payload.length + (headerLen + aeadTagLen)) d.maxRecord with
  | error e =>
    refine iff_of_false ?_ nofun
    rintro ⟨buf, d', h⟩
    cases h
  | ok u => exact iff_of_true ⟨_, _, rfl⟩ rfl

theorem sendDatagramNative_of_long {d d' : DatagramEnd} {n : ℕ}
    (hbuf : d.datagram cipher header payload = .ok (buf, d')) (hlost : d.lost = none)
    (hn : d.maxDatagramSize = some n) (hlong : n < buf.length) :
    (d.sendDatagramNative cipher header payload).1 = .error (.datagram .tooLarge) := by
  obtain ⟨-, hsame, hsameLost⟩ := datagram_ok hbuf
  have htoo : d'.sendDatagram buf = .error .tooLarge :=
    (d'.tooLarge_iff buf).mpr ⟨hsameLost.trans hlost, n, hsame.trans hn, hlong⟩
  unfold sendDatagramNative
  rw [hbuf]
  dsimp only
  rw [htoo]

theorem toOption_datagram : (d.datagram cipher header payload).toOption.map Prod.fst = some buf ↔
      ∃ d', d.datagram cipher header payload = .ok (buf, d') := by
  cases d.datagram cipher header payload with
  | error e => exact iff_of_false nofun nofun
  | ok result =>
    obtain ⟨buf', d'⟩ := result
    constructor
    · intro h
      cases h
      exact ⟨d', rfl⟩
    · rintro ⟨d'', h⟩
      cases h
      rfl

theorem tooLarge_of_sendDatagramNative {payload : List UInt8}
    (h : (d.sendDatagramNative cipher header payload).1 = .error (.datagram .tooLarge)) :
    ∃ buf d' n, d.datagram cipher header payload = .ok (buf, d') ∧ d.maxDatagramSize = some n ∧
      n < buf.length := by
  unfold sendDatagramNative at h
  cases hbuf : d.datagram cipher header payload with
  | error e =>
    -- then the record is over its own limit
    rw [hbuf] at h
    cases h
    unfold datagram checkLen at hbuf
    split at hbuf
    · cases hbuf
    · cases hbuf
  | ok result =>
    obtain ⟨buf, d'⟩ := result
    rw [hbuf] at h
    refine ⟨buf, d', ?_⟩
    obtain ⟨-, hsame, -⟩ := datagram_ok hbuf
    have htoo : d'.sendDatagram buf = .error .tooLarge := by
      dsimp only at h
      split at h
      · next hsend =>
        cases h
        exact hsend
      · cases h
    obtain ⟨-, n, hn, hlong⟩ := (d'.tooLarge_iff buf).mp htoo
    exact ⟨n, rfl, hsame.symm.trans hn, hlong⟩

end DatagramEnd

/-! ### The session of the agent -/

structure AudioSession where
  inner : ℕ
  multipath : Option End
  /-- By their connections. -/
  natives : ℕ → DatagramEnd

namespace AudioSession

def setNative (conn : ℕ) (d : DatagramEnd) (s : AudioSession) : AudioSession :=
  { s with natives := Function.update s.natives conn d }

def activeConnection (s : AudioSession) : ℕ :=
  ((s.multipath.bind fun t => t.shared.selected).map (·.native.conn)).getD s.inner

/-- What is added in front of the payload. -/
def envelopeRoom (s : AudioSession) : ℕ := if s.multipath.isSome then envelopeLen else 0

def maxDatagramSize (s : AudioSession) : Option ℕ :=
  (s.natives s.activeConnection).maxDatagramSize

/-- "Largest audio record that fits in a datagram on the current path, if the peer supports
datagrams at all." -/
def maxAudioRecord (s : AudioSession) : Option ℕ :=
  s.maxDatagramSize.map fun n => n - (channelPrefixLen + s.envelopeRoom)

/-- What `Multipath::send` does before the datagram: the path, and the payload it carries. -/
def wrap (payload : List UInt8) (t : End) :
    Except TransportError (Selected × List UInt8 × End) := do
  checkLen (payload.length + (envelopeLen + headerLen + aeadTagLen)) t.shared.maxRecord
  match t.shared.selected with
  | none => .error .closed
  | some selected =>
    let (sequence, t) ← t.lossySequence .audio
    return (selected, envelope sequence selected.epoch payload, t)

/-- `send` on the audio channel. -/
def sendAudio (cipher : Cipher) (h : Host) (header : MsgHeader) (payload : List UInt8)
    (s : AudioSession) : Except TransportError Unit × AudioSession :=
  match s.multipath with
  | none =>
    let (result, d) := (s.natives s.inner).sendDatagramNative cipher header payload
    (result, s.setNative s.inner d)
  | some t =>
    match wrap payload t with
    | .error e => (.error e, s)
    | .ok (selected, bytes, t) =>
      let conn := selected.native.conn
      let (result, d) := (s.natives conn).sendDatagramNative cipher header bytes
      let s := { s.setNative conn d with multipath := some t }
      match result with
      | .ok () => (.ok (), s)
      | .error (.datagram .tooLarge) => (.error (.datagram .tooLarge), s)
      | .error e =>
        let t := t.onShared (·.failPath h selected.id e)
        (if t.shared.shutdown then .error .closed else .ok (), { s with multipath := some t })

end AudioSession

/-! ### How long the datagrams are -/

theorem length_envelope (sequence epoch : ℕ) (payload : List UInt8) :
    (envelope sequence epoch payload).length = envelopeLen + payload.length := by
  simp [envelope, magic, envelopeLen]
  omega

namespace AudioSession

/-- The datagram of a payload, if the session gets so far. -/
def datagram (cipher : Cipher) (header : MsgHeader) (payload : List UInt8) (s : AudioSession) :
    Option (List UInt8) :=
  match s.multipath with
  | none => ((s.natives s.inner).datagram cipher header payload).toOption.map Prod.fst
  | some t =>
    match wrap payload t with
    | .error _ => none
    | .ok (selected, bytes, _) =>
      ((s.natives selected.native.conn).datagram cipher header bytes).toOption.map Prod.fst

/-- The session has a path, a sequence number and room in a record for so many bytes. -/
def Ready (len : ℕ) (s : AudioSession) : Prop :=
  match s.multipath with
  | none => len + (headerLen + aeadTagLen) ≤ (s.natives s.inner).maxRecord
  | some t =>
    len + (envelopeLen + headerLen + aeadTagLen) ≤ t.shared.maxRecord ∧
      t.shared.allocated .audio + 1 ≠ 2 ^ 64 ∧
      ∃ y, t.shared.selected = some y ∧
        len + (envelopeLen + headerLen + aeadTagLen) ≤ (s.natives y.native.conn).maxRecord

theorem wrap_ok {payload bytes : List UInt8} {t t' : End} {y : Selected}
    (h : wrap payload t = .ok (y, bytes, t')) :
    t.shared.selected = some y ∧ bytes.length = envelopeLen + payload.length ∧
      payload.length + (envelopeLen + headerLen + aeadTagLen) ≤ t.shared.maxRecord ∧
      t.shared.allocated .audio + 1 ≠ 2 ^ 64 := by
  unfold wrap at h
  cases hlen : checkLen (payload.length + (envelopeLen + headerLen + aeadTagLen))
      t.shared.maxRecord with
  | error e =>
    rw [hlen] at h
    cases h
  | ok u =>
    rw [hlen] at h
    cases hy : t.shared.selected with
    | none =>
      rw [hy] at h
      cases h
    | some selected =>
      rw [hy] at h
      by_cases hsequence : t.shared.allocated .audio + 1 = 2 ^ 64
      · simp only [End.lossySequence, hsequence] at h
        cases h
      · simp only [End.lossySequence, hsequence] at h
        obtain ⟨rfl, rfl, rfl⟩ := by simpa using Except.ok.inj h
        exact ⟨rfl, length_envelope _ _ _, checkLen_ok.mp hlen, hsequence⟩

variable {s : AudioSession}

theorem wrap_error {t : End} {e : TransportError}
    (h : wrap payload t = .error e) : e ≠ .datagram .tooLarge := by
  rintro rfl
  unfold wrap checkLen at h
  split at h
  · cases h
  · cases hy : t.shared.selected with
    | none =>
      rw [hy] at h
      cases h
    | some selected =>
      rw [hy] at h
      by_cases hsequence : t.shared.allocated .audio + 1 = 2 ^ 64
      · simp only [End.lossySequence, hsequence] at h
        cases h
      · simp only [End.lossySequence, hsequence] at h
        cases h

theorem wrap_of_ready {t : End} {y : Selected}
    (hlen : payload.length + (envelopeLen + headerLen + aeadTagLen) ≤ t.shared.maxRecord)
    (hsequence : t.shared.allocated .audio + 1 ≠ 2 ^ 64) (hy : t.shared.selected = some y) :
    ∃ bytes t', wrap payload t = .ok (y, bytes, t') := by
  unfold wrap
  rw [checkLen_ok.mpr hlen, hy]
  simp only [End.lossySequence, hsequence]
  exact ⟨_, _, rfl⟩

theorem length_datagram {payload buf : List UInt8}
    (h : s.datagram cipher header payload = some buf) :
    buf.length = payload.length +
      (channelPrefixLen + headerLen + aeadTagLen + s.envelopeRoom) := by
  unfold datagram at h
  unfold envelopeRoom
  cases hmulti : s.multipath with
  | none =>
    rw [hmulti] at h
    obtain ⟨d, hbuf⟩ := DatagramEnd.toOption_datagram.mp h
    have hlength := (DatagramEnd.datagram_ok hbuf).1
    simp only [hlength, Option.isSome_none]
    simp
    omega
  | some t =>
    rw [hmulti] at h
    dsimp only at h
    cases hwrap : wrap payload t with
    | error e =>
      rw [hwrap] at h
      cases h
    | ok result =>
      obtain ⟨y, bytes, t'⟩ := result
      rw [hwrap] at h
      obtain ⟨d, hbuf⟩ := DatagramEnd.toOption_datagram.mp h
      have hlength := (DatagramEnd.datagram_ok hbuf).1
      obtain ⟨-, hbytes, -⟩ := wrap_ok hwrap
      simp only [hlength, hbytes]
      simp
      omega

theorem exists_datagram_iff (cipher : Cipher) (header : MsgHeader) :
    (∃ buf, s.datagram cipher header payload = some buf) ↔ s.Ready payload.length := by
  unfold datagram Ready
  cases hmulti : s.multipath with
  | none =>
    dsimp only
    rw [← DatagramEnd.datagram_isOk_iff cipher header]
    exact exists_congr fun buf => DatagramEnd.toOption_datagram
  | some t =>
    dsimp only
    constructor
    · rintro ⟨buf, h⟩
      cases hwrap : wrap payload t with
      | error e =>
        rw [hwrap] at h
        cases h
      | ok result =>
        obtain ⟨y, bytes, t'⟩ := result
        rw [hwrap] at h
        obtain ⟨hy, hbytes, hlen, hsequence⟩ := wrap_ok hwrap
        obtain ⟨d, hbuf⟩ := DatagramEnd.toOption_datagram.mp h
        have hrecord := (DatagramEnd.datagram_isOk_iff cipher header).mp ⟨buf, d, hbuf⟩
        exact ⟨hlen, hsequence, y, hy, by omega⟩
    · rintro ⟨hlen, hsequence, y, hy, hrecord⟩
      obtain ⟨bytes, t', hwrap⟩ := wrap_of_ready hlen hsequence hy
      obtain ⟨-, hbytes, -⟩ := wrap_ok hwrap
      have hfits : bytes.length + (headerLen + aeadTagLen) ≤
          (s.natives y.native.conn).maxRecord := by omega
      obtain ⟨buf, d, hbuf⟩ := (DatagramEnd.datagram_isOk_iff cipher header).mpr hfits
      rw [hwrap]
      exact ⟨buf, DatagramEnd.toOption_datagram.mpr ⟨d, hbuf⟩⟩

theorem tooLarge_of_sendAudio {h : Host}
    (hsend : (s.sendAudio cipher h header payload).1 = .error (.datagram .tooLarge)) :
    ∃ buf n, s.datagram cipher header payload = some buf ∧ s.maxDatagramSize = some n ∧
      n < buf.length := by
  unfold sendAudio at hsend
  unfold datagram maxDatagramSize activeConnection
  cases hmulti : s.multipath with
  | none =>
    rw [hmulti] at hsend
    obtain ⟨buf, d, n, hbuf, hn, hlong⟩ := DatagramEnd.tooLarge_of_sendDatagramNative hsend
    exact ⟨buf, n, DatagramEnd.toOption_datagram.mpr ⟨d, hbuf⟩, hn, hlong⟩
  | some t =>
    rw [hmulti] at hsend
    dsimp only at hsend ⊢
    cases hwrap : wrap payload t with
    | error e =>
      rw [hwrap] at hsend
      exact absurd (Except.error.inj hsend) (wrap_error hwrap)
    | ok result =>
      obtain ⟨y, bytes, t'⟩ := result
      obtain ⟨hy, -⟩ := wrap_ok hwrap
      rw [hwrap] at hsend
      dsimp only at hsend
      cases hnative : (s.natives y.native.conn).sendDatagramNative cipher header bytes with
      | mk result d =>
        rw [hnative] at hsend
        have htoo : result = .error (.datagram .tooLarge) := by
          dsimp only at hsend
          split at hsend
          · cases hsend
          · rfl
          · split at hsend
            · cases hsend
            · cases hsend
        obtain ⟨buf, d', n, hbuf, hn, hlong⟩ := DatagramEnd.tooLarge_of_sendDatagramNative
          ((congrArg Prod.fst hnative).trans htoo)
        refine ⟨buf, n, DatagramEnd.toOption_datagram.mpr ⟨d', hbuf⟩, ?_, hlong⟩
        rw [Option.bind_some, hy]
        exact hn

theorem sendAudio_of_long {h : Host} {payload buf : List UInt8} {n : ℕ}
    (hbuf : s.datagram cipher header payload = some buf) (hn : s.maxDatagramSize = some n)
    (hlost : (s.natives s.activeConnection).lost = none) (hlong : n < buf.length) :
    (s.sendAudio cipher h header payload).1 = .error (.datagram .tooLarge) := by
  unfold datagram at hbuf
  unfold maxDatagramSize activeConnection at hn
  unfold activeConnection at hlost
  unfold sendAudio
  cases hmulti : s.multipath with
  | none =>
    rw [hmulti] at hbuf hn hlost
    obtain ⟨d, hok⟩ := DatagramEnd.toOption_datagram.mp hbuf
    exact DatagramEnd.sendDatagramNative_of_long hok hlost hn hlong
  | some t =>
    rw [hmulti] at hbuf hn hlost
    dsimp only at hbuf ⊢
    cases hwrap : wrap payload t with
    | error e =>
      rw [hwrap] at hbuf
      cases hbuf
    | ok result =>
      obtain ⟨y, bytes, t'⟩ := result
      rw [hwrap] at hbuf
      obtain ⟨hy, -⟩ := wrap_ok hwrap
      rw [Option.bind_some, hy] at hn hlost
      obtain ⟨d, hok⟩ := DatagramEnd.toOption_datagram.mp hbuf
      have hnative := DatagramEnd.sendDatagramNative_of_long hok hlost hn hlong
      dsimp only
      rw [hnative]

end AudioSession

/-! ### The audio pump -/

structure EncodedAudio where
  data : List UInt8
  timestampUs : UInt64

/-- What becomes of a packet. -/
inductive AudioTurn
  /-- Too large for the path. -/
  | dropped
  | sent (bytes : ℕ)
  /-- The session ended while sending audio. -/
  | ended (error : TransportError)
deriving DecidableEq

structure AudioPump where
  session : AudioSession
  info : AudioFrameInfo
  audioSeq : UInt32

namespace AudioPump

def header (packet : EncodedAudio) (p : AudioPump) : MsgHeader :=
  (MsgHeader.new .audioFrame p.audioSeq packet.timestampUs).withFlags .discardable

/-- One packet from the encoder. -/
def turn (cipher : Cipher) (h : Host) (packet : EncodedAudio) (p : AudioPump) :
    AudioTurn × AudioPump :=
  let payload := p.info.framePayload packet.data
  let next := { p with audioSeq := p.audioSeq + 1 }
  if p.session.maxAudioRecord.any (payload.length > ·) then (.dropped, next)
  else
    match p.session.sendAudio cipher h (p.header packet) payload with
    | (.ok (), session) => (.sent payload.length, { next with session := session })
    | (.error e, session) => (.ended e, { next with session := session })

theorem sendAudio_of_ended {cipher : Cipher} {h : Host} {packet : EncodedAudio} {p : AudioPump}
    {e : TransportError} (hturn : (p.turn cipher h packet).1 = .ended e) :
    (p.session.sendAudio cipher h (p.header packet) (p.info.framePayload packet.data)).1 =
      .error e := by
  unfold turn at hturn
  dsimp only at hturn
  split at hturn
  · cases hturn
  · split at hturn
    · cases hturn
    · next hsend =>
      cases hturn
      rw [hsend]

/-- A packet that is not dropped fits a datagram of `n` bytes, and does not end the session by its
size. -/
def Fits (cipher : Cipher) (h : Host) (packet : EncodedAudio) (n : ℕ) (p : AudioPump) : Prop :=
  (p.turn cipher h packet).1 ≠ .dropped →
    (∀ buf, p.session.datagram cipher (p.header packet) (p.info.framePayload packet.data) =
      some buf → buf.length ≤ n) ∧
    (p.turn cipher h packet).1 ≠ .ended (.datagram .tooLarge)

theorem turn_dropped_iff (cipher : Cipher) (h : Host) (packet : EncodedAudio) {p : AudioPump}
    {n : ℕ} (hn : p.session.maxDatagramSize = some n) :
    (p.turn cipher h packet).1 = .dropped ↔
      n < packet.data.length + 4 + (channelPrefixLen + p.session.envelopeRoom) := by
  unfold turn AudioSession.maxAudioRecord
  rw [hn]
  simp only [Option.map_some, Option.any_some, AudioFrameInfo.length_framePayload,
    decide_eq_true_eq]
  split
  · exact iff_of_true rfl (by omega)
  · refine iff_of_false ?_ (by omega)
    split
    · simp
    · simp

theorem band_ends {cipher : Cipher} {h : Host} {packet : EncodedAudio} {p : AudioPump} {n : ℕ}
    (hn : p.session.maxDatagramSize = some n)
    (hlost : (p.session.natives p.session.activeConnection).lost = none)
    (hready : p.session.Ready (packet.data.length + 4))
    (hpasses : packet.data.length + 8 + p.session.envelopeRoom ≤ n)
    (hover : n < packet.data.length + 40 + p.session.envelopeRoom) :
    (p.turn cipher h packet).1 = .ended (.datagram .tooLarge) := by
  rw [← AudioFrameInfo.length_framePayload p.info] at hready
  obtain ⟨buf, hbuf⟩ := (AudioSession.exists_datagram_iff cipher (p.header packet)).mpr hready
  have hlong : n < buf.length := by
    rw [AudioSession.length_datagram hbuf, AudioFrameInfo.length_framePayload]
    simp only [channelPrefixLen, headerLen, aeadTagLen]
    omega
  have hkept : (p.turn cipher h packet).1 ≠ .dropped := by
    rw [ne_eq, turn_dropped_iff cipher h packet hn, channelPrefixLen]
    omega
  have hsend := AudioSession.sendAudio_of_long (h := h) hbuf hn hlost hlong
  unfold turn at hkept ⊢
  dsimp only at hkept ⊢
  split
  · next hdrop => exact absurd (by rw [if_pos hdrop]) hkept
  · cases hresult : p.session.sendAudio cipher h (p.header packet)
        (p.info.framePayload packet.data) with
    | mk result session =>
      rw [hresult] at hsend
      obtain rfl : result = .error (.datagram .tooLarge) := hsend
      rfl

/-- **What passes the check need not fit.**  On a path whose datagrams hold `n` bytes, a packet of
`d` bytes that is not dropped fits, and does not end the session by its size, exactly if the
session has no record for it at all, or `d + 8` bytes do not fit (and it is dropped), or `d + 40`
bytes do; in multipath 21 bytes more. -/
theorem audioPacket_fits_iff (cipher : Cipher) (h : Host) (packet : EncodedAudio) (p : AudioPump)
    {n : ℕ} (hn : p.session.maxDatagramSize = some n) :
    p.Fits cipher h packet n ↔
      ¬ p.session.Ready (packet.data.length + 4) ∨
        n < packet.data.length + 8 + p.session.envelopeRoom ∨
        packet.data.length + 40 + p.session.envelopeRoom ≤ n := by
  have hdropped := turn_dropped_iff cipher h packet hn
  have hready : (∃ buf, p.session.datagram cipher (p.header packet)
      (p.info.framePayload packet.data) = some buf) ↔
      p.session.Ready (packet.data.length + 4) := by
    rw [AudioSession.exists_datagram_iff, AudioFrameInfo.length_framePayload]
  have hlength : ∀ buf, p.session.datagram cipher (p.header packet)
      (p.info.framePayload packet.data) = some buf →
      buf.length = packet.data.length + 40 + p.session.envelopeRoom := by
    intro buf hbuf
    rw [AudioSession.length_datagram hbuf, AudioFrameInfo.length_framePayload]
    simp only [channelPrefixLen, headerLen, aeadTagLen]
    omega
  have hended : (p.turn cipher h packet).1 = .ended (.datagram .tooLarge) →
      ∃ buf, p.session.datagram cipher (p.header packet) (p.info.framePayload packet.data) =
        some buf ∧ n < buf.length := by
    intro hturn
    obtain ⟨buf, m, hbuf, hm, hlong⟩ := AudioSession.tooLarge_of_sendAudio (sendAudio_of_ended hturn)
    obtain rfl := Option.some.inj (hn.symm.trans hm)
    exact ⟨buf, hbuf, hlong⟩
  simp only [channelPrefixLen] at hdropped
  constructor
  · intro hfits
    by_contra hband
    rw [not_or, not_or, not_not] at hband
    obtain ⟨hthere, hpasses, hover⟩ := hband
    obtain ⟨buf, hbuf⟩ := hready.mpr hthere
    have hkept : (p.turn cipher h packet).1 ≠ .dropped := by
      rw [ne_eq, hdropped]
      omega
    have hle := (hfits hkept).1 buf hbuf
    rw [hlength buf hbuf] at hle
    exact hover hle
  · intro hsize hkept
    rw [ne_eq, hdropped] at hkept
    have hshort : ∀ buf, p.session.datagram cipher (p.header packet)
        (p.info.framePayload packet.data) = some buf → buf.length ≤ n := by
      intro buf hbuf
      rcases hsize with hgone | hsmall | hroom
      · exact absurd (hready.mp ⟨buf, hbuf⟩) hgone
      · omega
      · rw [hlength buf hbuf]
        exact hroom
    refine ⟨hshort, fun hturn => ?_⟩
    obtain ⟨buf, hbuf, hlong⟩ := hended hturn
    exact absurd (hshort buf hbuf) (by omega)

def sendUpTo (n : ℕ) (buf : List UInt8) : Except SendDatagramError Unit :=
  if n < buf.length then .error .tooLarge else .ok ()

theorem sendUpTo_tooLarge_iff (n : ℕ) (buf : List UInt8) : sendUpTo n buf = .error .tooLarge ↔
    (none : Option ConnectionError) = none ∧ ∃ m, some n = some m ∧ m < buf.length := by
  simp [sendUpTo]

/-- A connection whose datagrams hold `n` bytes. -/
def sampleEnd (n : ℕ) : DatagramEnd where
  sealer := .new
  maxRecord := 16 * 1024 * 1024
  maxDatagramSize := some n
  lost := none
  sendDatagram := sendUpTo n
  tooLarge_iff := sendUpTo_tooLarge_iff n

/-- A plain session whose datagrams hold 1200 bytes. -/
def sample : AudioPump := ⟨⟨0, none, fun _ => sampleEnd 1200⟩, ⟨.opus, 2, 20⟩, 0⟩

theorem length_sampleCipher (_ _ msg : List UInt8) :
    (msg ++ List.replicate aeadTagLen 0).length = msg.length + aeadTagLen := by
  simp

/-- Nothing is encrypted. -/
def sampleCipher : Cipher :=
  ⟨fun _ _ msg => msg ++ List.replicate aeadTagLen 0, length_sampleCipher⟩

theorem sample_ready {len : ℕ} (h : len ≤ 1200) : sample.session.Ready len := by
  show len + (headerLen + aeadTagLen) ≤ 16 * 1024 * 1024
  simp only [headerLen, aeadTagLen]
  omega

def sampleHost : Host := ⟨0, fun _ => false, fun _ => none, fun _ _ => false⟩

theorem audioPacket_fits_iff_opus :
    sample.Fits sampleCipher sampleHost ⟨[0xfc, 0xff, 0xfe], 0⟩ 1200 :=
  (audioPacket_fits_iff sampleCipher sampleHost ⟨[0xfc, 0xff, 0xfe], 0⟩ sample rfl).mpr
    (.inr (.inr (by decide)))

/-- 1170 bytes pass the check, and the 1210 of their datagram end the session. -/
theorem packet_in_band_ends :
    ¬ sample.Fits sampleCipher sampleHost ⟨List.replicate 1170 0, 0⟩ 1200 ∧
      (sample.turn sampleCipher sampleHost ⟨List.replicate 1170 0, 0⟩).1 =
        .ended (.datagram .tooLarge) := by
  have hlength : (List.replicate 1170 (0 : UInt8)).length = 1170 := List.length_replicate
  have hends : (sample.turn sampleCipher sampleHost ⟨List.replicate 1170 0, 0⟩).1 =
      .ended (.datagram .tooLarge) :=
    band_ends rfl rfl (sample_ready (by rw [hlength]; decide))
      (by rw [hlength]; decide) (by rw [hlength]; decide)
  refine ⟨fun hfits => (hfits ?_).2 hends, hends⟩
  rw [hends]
  exact AudioTurn.noConfusion

end AudioPump

end NebulaDesk
