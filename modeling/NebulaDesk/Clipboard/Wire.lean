/-
Clipboard contents on the wire (`nebula-agent/src/session.rs`,
`nebula-client/src/session.rs`, `ndp-transport/src/session.rs`).

Both sides put clipboard actions on the wire with the same `send_clipboard`, and
both end their session when it fails.  A poll offers contents of up to
`maxContents` bytes, but a record of the default configuration carries fewer:
`offered_delivered_iff` says which contents can be delivered.
-/
import NebulaDesk.Clipboard.Consent
import NebulaDesk.Multipath.Inbox

namespace NebulaDesk

/-- `max_record` of the default transport configuration. -/
def defaultMaxRecord : ℕ := 16 * 1024 * 1024

structure Session where
  maxRecord : ℕ
  multipath : Option Multipath.End
  /-- How the native connection ended, if it did. -/
  broken : Option ConnectionError

namespace Session

/-- Send one message over the native connection; the clipboard opens a stream
for it. -/
def sendNative (payload : List UInt8) (t : Session) : Except TransportError Unit := do
  checkLen (payload.length + (headerLen + aeadTagLen)) t.maxRecord
  match t.broken with
  | none => return ()
  | some error => throw (.connection error)

/-- Send one message, choosing the carrier that matches the channel. -/
def send (c : Channel) (header : MsgHeader) (payload : List UInt8) (t : Session) :
    Except TransportError Unit :=
  match t.multipath with
  | some logical => (logical.send c ⟨header, payload⟩).map fun _ => ()
  | none => t.sendNative payload

/-- The message kind and payload of a clipboard action; offers and requests are
spelled as JSON. -/
def clipboardPayload (json : ClipboardAction → List UInt8) :
    ClipboardAction → Option (MsgKind × List UInt8)
  | .offer o => some (.clipboardOffer, json (.offer o))
  | .request r => some (.clipboardRequest, json (.request r))
  | .data header bytes => some (.clipboardData, header.payload bytes)
  | .files _ => none

/-- Put one clipboard action on the wire; the session ends if this is `false`. -/
def sendClipboard (json : ClipboardAction → List UInt8) (action : ClipboardAction) (seq : UInt32)
    (t : Session) : Bool × UInt32 :=
  match clipboardPayload json action with
  | none => (false, seq)
  | some (kind, payload) =>
    ((t.send .clipboard (MsgHeader.new kind seq 0) payload).isOk, seq + 1)

/-- A session of the default configuration that is up. -/
structure Default (t : Session) : Prop where
  native : t.multipath = none → t.maxRecord = defaultMaxRecord ∧ t.broken = none
  logical : ∀ logical, t.multipath = some logical →
    logical.shared.maxRecord = defaultMaxRecord ∧ logical.shared.shutdown = false

/-- What a record adds to clipboard contents. -/
def overhead (t : Session) : ℕ :=
  clipboardDataHeaderLen + (headerLen + aeadTagLen) +
    (if t.multipath.isSome then Multipath.envelopeLen else 0)

variable {t : Session}

theorem send_data_isOk_iff (h : t.Default) (header : ClipboardDataHeader) (bytes : List UInt8)
    (msg : MsgHeader) :
    (t.send .clipboard msg (header.payload bytes)).isOk = true ↔
      bytes.length + t.overhead ≤ defaultMaxRecord := by
  unfold send overhead
  cases hm : t.multipath with
  | none =>
    obtain ⟨hmax, hbroken⟩ := h.native hm
    simp only [sendNative, hmax, hbroken, ClipboardDataHeader.length_payload, Option.isSome_none,
      Bool.false_eq_true, if_false]
    by_cases hfits : clipboardDataHeaderLen + bytes.length + (headerLen + aeadTagLen) ≤ defaultMaxRecord
    · simp only [checkLen_ok.mpr hfits, bind, Except.bind, pure, Except.pure, Except.isOk,
        Except.toBool, true_iff]
      omega
    · rw [checkLen, if_pos (Nat.lt_of_not_le hfits)]
      simp only [bind, Except.bind, Except.isOk, Except.toBool, Bool.false_eq_true, false_iff]
      omega
  | some logical =>
    obtain ⟨hmax, hup⟩ := h.logical logical hm
    have hwindow : defaultMaxRecord ≤ Multipath.byteWindow := by decide
    simp only [Multipath.End.send, Multipath.End.admits, hmax, hup,
      ClipboardDataHeader.length_payload, Option.isSome_some, if_true]
    by_cases hfits : clipboardDataHeaderLen + bytes.length +
        (Multipath.envelopeLen + headerLen + aeadTagLen) ≤ defaultMaxRecord
    · have hsmall : clipboardDataHeaderLen + bytes.length + Multipath.envelopeLen ≤
          Multipath.byteWindow := by omega
      simp only [checkLen_ok.mpr hfits, checkLen_ok.mpr hsmall, bind, Except.bind, pure,
        Except.pure, Except.map, Except.isOk, Except.toBool, Bool.false_eq_true, if_false, true_iff]
      omega
    · rw [checkLen, if_pos (Nat.lt_of_not_le hfits)]
      simp only [bind, Except.bind, Except.map, Except.isOk, Except.toBool, Bool.false_eq_true,
        false_iff]
      omega

end Session

namespace ClipboardSync

variable {host : Host} {s : ClipboardSync Desktop} {c : Contents} {o : ClipboardOffer}

/-- The peer asks for what a poll of `s` just offered, and the answer goes out. -/
def Delivered (host : Host) (json : ClipboardAction → List UInt8) (t : Session) (seq : UInt32)
    (s : ClipboardSync Desktop) (o : ClipboardOffer) : Prop :=
  ∃ format action, format ∈ o.formats ∧
    onRequest ⟨o.offerId, format⟩ (poll host (Desktop.access host) s).2 = some action ∧
    (t.sendClipboard json action seq).1 = true

theorem Offers.delivered_iff (h : Offers host s c (poll host (Desktop.access host) s).1
      (poll host (Desktop.access host) s).2)
    (hen : (poll host (Desktop.access host) s).2.enabled = s.enabled) {t : Session}
    {json : ClipboardAction → List UInt8} {seq : UInt32} :
    Delivered host json t seq s ⟨s.nextOffer, [c.format], c.bytes.length⟩ ↔
      (t.sendClipboard json (.data ⟨s.nextOffer, c.format⟩ c.bytes) seq).1 = true := by
  have hanswer : onRequest ⟨s.nextOffer, c.format⟩ (poll host (Desktop.access host) s).2 =
      some (.data ⟨s.nextOffer, c.format⟩ c.bytes) := by
    unfold onRequest
    rw [if_neg (by simp [hen, h.enabled]), h.outgoing]
    simp
  constructor
  · rintro ⟨format, action, hformat, hact, hsent⟩
    obtain rfl := List.mem_singleton.mp hformat
    obtain rfl := Option.some.inj (hanswer.symm.trans hact)
    exact hsent
  · intro hsent
    exact ⟨c.format, _, List.mem_singleton_self _, hanswer, hsent⟩

theorem offers_of_poll (hpoll : (poll host (Desktop.access host) s).1 = some (.offer o))
    (hc : (poll host (Desktop.access host) s).2.clipboard.contents = some c) :
    Offers host s c (poll host (Desktop.access host) s).1 (poll host (Desktop.access host) s).2 ∧
      o = ⟨s.nextOffer, [c.format], c.bytes.length⟩ := by
  rcases (polled host s).outcome with hq | ⟨c', hoffers⟩
  · rcases hq.action with hn | ⟨files, hn⟩
    all_goals cases hn.symm.trans hpoll
  · obtain rfl := Option.some.inj (hoffers.contents.symm.trans hc)
    exact ⟨hoffers,
      (ClipboardAction.offer.inj (Option.some.inj (hoffers.action.symm.trans hpoll))).symm⟩

/-- **Contents that were offered are delivered exactly if their record fits.** -/
theorem offered_delivered_iff (hpoll : (poll host (Desktop.access host) s).1 = some (.offer o))
    (hc : (poll host (Desktop.access host) s).2.clipboard.contents = some c) {t : Session}
    (ht : t.Default) (json : ClipboardAction → List UInt8) (seq : UInt32) :
    Delivered host json t seq s o ↔ c.bytes.length + t.overhead ≤ defaultMaxRecord := by
  obtain ⟨hoffers, rfl⟩ := offers_of_poll hpoll hc
  rw [hoffers.delivered_iff (polled host s).enabled]
  exact Session.send_data_isOk_iff ht _ _ _

/-! ### A large text -/

/-- A native session of the default configuration. -/
def sampleSession : Session := ⟨defaultMaxRecord, none, none⟩

theorem sampleSession_default : sampleSession.Default :=
  ⟨fun _ => ⟨rfl, rfl⟩, fun _ h => by cases h⟩

/-- A sync whose user has just copied a text of these bytes. -/
def sampleCopied (bytes : List UInt8) : ClipboardSync Desktop :=
  withFileTransfer ⟨true, 1, some ⟨.text, bytes⟩, none, false, Weather.calm⟩ true false

theorem sampleCopied_offers {bytes : List UInt8} (h : bytes.length ≤ maxContents) :
    (poll sampleHost (Desktop.access sampleHost) (sampleCopied bytes)).1 =
        some (.offer ⟨1, [.text], bytes.length⟩) ∧
      (poll sampleHost (Desktop.access sampleHost) (sampleCopied bytes)).2.clipboard.contents =
        some ⟨.text, bytes⟩ := by
  have hdigest : Contents.digest sampleHost ⟨.text, bytes⟩ =
      .ok (ClipboardFormat.text.toU8 :: bytes) := by
    simp [Contents.digest, sampleHost, Nat.not_lt.mpr h, pure, Except.pure]
  constructor
  · exact poll_announces rfl rfl rfl rfl rfl rfl hdigest (fun h => by cases h) fun _ h => by cases h
  · have hp := polled sampleHost (sampleCopied bytes)
    rw [hp.later.still rfl]
    rfl

theorem offered_not_delivered {bytes : List UInt8} (h : bytes.length ≤ maxContents)
    (hlarge : defaultMaxRecord < bytes.length + sampleSession.overhead)
    (json : ClipboardAction → List UInt8) (seq : UInt32) :
    (poll sampleHost (Desktop.access sampleHost) (sampleCopied bytes)).1 =
        some (.offer ⟨1, [.text], bytes.length⟩) ∧
      ¬ Delivered sampleHost json sampleSession seq (sampleCopied bytes)
        ⟨1, [.text], bytes.length⟩ := by
  obtain ⟨hoffer, hc⟩ := sampleCopied_offers h
  refine ⟨hoffer, ?_⟩
  intro hdelivered
  have hsent := ((offers_of_poll hoffer hc).1.delivered_iff (polled sampleHost _).enabled).mp hdelivered
  have hfits := (Session.send_data_isOk_iff sampleSession_default _ _ _).mp hsent
  dsimp only at hfits
  omega

/-- A text of 16 MiB is offered, and the session ends when the peer asks for it. -/
theorem large_text_not_delivered :
    (poll sampleHost (Desktop.access sampleHost)
        (sampleCopied (List.replicate defaultMaxRecord 0x61))).1 =
        some (.offer ⟨1, [.text], (List.replicate defaultMaxRecord (0x61 : UInt8)).length⟩) ∧
      ¬ Delivered sampleHost (fun _ => []) sampleSession 0
        (sampleCopied (List.replicate defaultMaxRecord 0x61))
        ⟨1, [.text], (List.replicate defaultMaxRecord (0x61 : UInt8)).length⟩ := by
  have hlen : (List.replicate defaultMaxRecord (0x61 : UInt8)).length = defaultMaxRecord :=
    List.length_replicate
  generalize List.replicate defaultMaxRecord (0x61 : UInt8) = bytes at hlen
  refine offered_not_delivered ?_ ?_ _ _
  · rw [hlen]
    decide
  · rw [hlen]
    decide

/-- A short text is delivered. -/
theorem offered_delivered_hi :
    (poll sampleHost (Desktop.access sampleHost) (sampleCopied [0x68, 0x69])).1 =
        some (.offer ⟨1, [.text], 2⟩) ∧
      Delivered sampleHost (fun _ => []) sampleSession 0 (sampleCopied [0x68, 0x69])
        ⟨1, [.text], 2⟩ := by
  obtain ⟨hoffer, hc⟩ := sampleCopied_offers (show [0x68, 0x69].length ≤ maxContents by decide)
  exact ⟨hoffer,
    (offered_delivered_iff hoffer hc sampleSession_default (fun _ => []) 0).mpr (by decide)⟩

end ClipboardSync

end NebulaDesk
