/-
The layouts of the binary formats, and what their readers and writers owe each
other.

Every format is a `Layout`: its fields in order, with the numbers its decoder
takes and, for reserved bytes and clamped coordinates, what the encoder writes
instead of what was read.  Each format is `Faithful` to its layout.
-/
import NebulaDesk.Lib.Layout
import NebulaDesk.Proto.Clipboard
import NebulaDesk.Proto.Frames
import NebulaDesk.Proto.Input
import NebulaDesk.Proto.Transfer

namespace NebulaDesk

open Bytes Layout

variable {b r : List UInt8} {v : F32}

theorem readInt_iff {n v : ℕ} :
    readInt n b = .ok (v, r) ↔ v < 256 ^ n ∧ b = toLeBytes n v ++ r := by
  constructor
  · exact readInt_eq_ok
  · rintro ⟨h, rfl⟩
    exact readInt_append h r

/-! ### Discriminants -/

def MsgKind.all : List MsgKind :=
  [.hello, .helloAck, .bye, .ping, .pong, .capsUpdate, .displayLayout, .cursorShape, .cursorPos,
    .qosReport, .pathCandidates, .application, .videoFrame, .audioFrame, .inputEvent, .inputBatch,
    .clipboardOffer, .clipboardData, .clipboardRequest, .fileOffer, .fileChunk, .fileAck]

def InputKind.all : List InputKind :=
  [.mouseMove, .mouseDown, .mouseUp, .mouseDrag, .wheel, .keyDown, .keyUp, .pointerLeave]

def MouseButton.all : List MouseButton := [.none, .left, .right, .middle, .back, .forward]

def ClipboardFormat.all : List ClipboardFormat := [.text, .html, .png, .fileList]

def VideoCodec.all : List VideoCodec := [.h264, .hevc, .av1]

theorem InputKind.fromU8_toU8 (k : InputKind) : fromU8 k.toU8 = .ok k := by cases k <;> rfl

theorem MouseButton.fromU8_toU8 (b : MouseButton) : fromU8 b.toU8 = .ok b := by cases b <;> rfl

theorem videoCodecFromId_videoCodecId (c : VideoCodec) :
    videoCodecFromId (videoCodecId c) = .ok c := by cases c <;> rfl

theorem InputKind.toU8_of_fromU8 {v : ℕ} {k : InputKind} (h : fromU8 v = .ok k) : k.toU8 = v := by
  unfold fromU8 at h
  split at h <;> cases h <;> rfl

theorem MouseButton.toU8_of_fromU8 {v : ℕ} {b : MouseButton} (h : fromU8 v = .ok b) :
    b.toU8 = v := by
  unfold fromU8 at h
  split at h <;> cases h <;> rfl

theorem videoCodecId_of_fromId {v : ℕ} {c : VideoCodec} (h : videoCodecFromId v = .ok c) :
    videoCodecId c = v := by
  unfold videoCodecFromId at h
  split at h <;> cases h <;> rfl

theorem ClipboardFormat.toU8_of_fromU8 {v : UInt8} {f : ClipboardFormat}
    (h : fromU8 v = .ok f) : f.toU8 = v := by
  unfold fromU8 at h
  split at h
  all_goals first
    | (rename_i hv
       cases h
       exact UInt8.toNat_inj.mp (by rw [hv]; rfl))
    | cases h

/-! ### Layouts -/

def headerLayout : List Field :=
  [.among 1 [protocolVersion.toNat], .among 1 (MsgKind.all.map (·.toU8.toNat)), .kept 2, .kept 4,
    .kept 8]

def videoInfoLayout : List Field :=
  [.kept 1, .among 1 (VideoCodec.all.map videoCodecId), .reserved 2, .checked 2 (· ≠ 0),
    .checked 2 (· ≠ 0), .kept 4]

def surfaceFrameLayout : List Field := [.checked 4 (· ≠ 0), .kept 4]

def audioInfoLayout : List Field :=
  [.among 1 [1], .checked 1 (fun n => 1 ≤ n && n ≤ 8), .kept 1, .reserved 1]

def clipboardDataLayout : List Field :=
  [.kept 8, .among 1 (ClipboardFormat.all.map (·.toU8.toNat)), .reserved 1, .reserved 1,
    .reserved 1]

def fileChunkLayout : List Field := [.kept 8, .kept 8]

def fileAckLayout : List Field := [.kept 8, .kept 8, .checked 4 (· ≠ 0)]

def finiteField : Field := .checked 4 fun n => F32.isFinite ⟨BitVec.ofNat 32 n⟩

/-- A finite number, written clamped to the unit interval. -/
def coordField : Field :=
  ⟨4, fun n => F32.isFinite ⟨BitVec.ofNat 32 n⟩,
    fun n => (clampUnit ⟨BitVec.ofNat 32 n⟩).bits.toNat⟩

def inputEventLayout : List Field :=
  [.among 1 (InputKind.all.map InputKind.toU8), .among 1 (MouseButton.all.map MouseButton.toU8),
    .kept 2, .kept 1, .reserved 1, .kept 2, coordField, coordField, finiteField, finiteField,
    .checked 4 (· ≤ 0xe7), .kept 4]

/-! ### Valid values -/

/-- A header of this build's version. -/
def MsgHeader.Valid (h : MsgHeader) : Prop := h.version = protocolVersion

/-- A descriptor in the ranges of its types, of a frame that has an area. -/
structure VideoFrameInfo.Valid (info : VideoFrameInfo) : Prop where
  display : info.display < 2 ^ 8
  width : 0 < info.width ∧ info.width < 2 ^ 16
  height : 0 < info.height ∧ info.height < 2 ^ 16
  durationUs : info.durationUs < 2 ^ 32

structure SurfaceFrameInfo.Valid (frame : SurfaceFrameInfo) : Prop where
  geometryGeneration : 0 < frame.geometryGeneration ∧ frame.geometryGeneration < 2 ^ 32
  surfaceSequence : frame.surfaceSequence < 2 ^ 32

structure AudioFrameInfo.Valid (info : AudioFrameInfo) : Prop where
  channels : 1 ≤ info.channels ∧ info.channels ≤ 8
  frameMs : info.frameMs < 2 ^ 8

def ClipboardDataHeader.Valid (h : ClipboardDataHeader) : Prop := h.offerId < 2 ^ 64

structure FileChunkHeader.Valid (h : FileChunkHeader) : Prop where
  transferId : h.transferId < 2 ^ 64
  offset : h.offset < 2 ^ 64

structure FileAck.Valid (a : FileAck) : Prop where
  transferId : a.transferId < 2 ^ 64
  received : a.received < 2 ^ 64
  window : 0 < a.window ∧ a.window < 2 ^ 32

/-- A position on the display, from one edge to the other. -/
def UnitRange (v : F32) : Prop := F32.le ⟨0⟩ v = true ∧ F32.le v ⟨0x3f800000⟩ = true

structure InputEvent.Valid (e : InputEvent) : Prop where
  modifiers : e.modifiers < 2 ^ 16
  display : e.display < 2 ^ 8
  pointerId : e.pointerId < 2 ^ 16
  position : UnitRange e.x ∧ UnitRange e.y
  scroll : e.scrollX.isFinite = true ∧ e.scrollY.isFinite = true
  key : e.key ≤ 0xe7
  unicode : e.unicode < 2 ^ 32

/-! ### The record header -/

theorem fits_header {version kind flags seq time : ℕ} :
    Fits headerLayout (version, kind, flags, seq, time, ()) ↔
      version = protocolVersion.toNat ∧ (∃ k : MsgKind, k.toU8.toNat = kind) ∧
        flags < 2 ^ 16 ∧ seq < 2 ^ 32 ∧ time < 2 ^ 64 := by
  have hkind : kind ∈ MsgKind.all.map (·.toU8.toNat) ↔ ∃ k : MsgKind, k.toU8.toNat = kind := by
    rw [List.mem_map]
    exact exists_congr fun k => and_iff_right (by cases k <;> decide)
  simp only [headerLayout, Fits, Field.among, Field.checked, Field.kept, List.contains_iff_mem,
    hkind, List.mem_singleton, and_true, true_and]
  constructor
  · rintro ⟨-, hv, -, hk, hf, hs, ht⟩
    exact ⟨hv, hk, hf, hs, ht⟩
  · rintro ⟨rfl, ⟨k, rfl⟩, hf, hs, ht⟩
    exact ⟨protocolVersion.toNat_lt, rfl, k.toU8.toNat_lt, ⟨k, rfl⟩, hf, hs, ht⟩

theorem MsgHeader.toBytes_spell (h : MsgHeader) :
    h.toBytes = spell headerLayout (h.version.toNat, h.kind.toU8.toNat, h.flags.bits.toNat,
      h.seq.toNat, h.timestampUs.toNat, ()) := by
  simp [toBytes, headerLayout]

theorem MsgHeader.faithful :
    Faithful headerLayout MsgHeader.Valid MsgHeader.toBytes MsgHeader.split := by
  refine .of_spellings (fun v hv p => split_toBytes hv p) ?_ ?_
  · rintro ⟨version, kind, flags, seq, time, ⟨⟩⟩ hfits
    obtain ⟨rfl, ⟨k, rfl⟩, hflags, hseq, htime⟩ := fits_header.mp hfits
    have hbytes := toBytes_spell ⟨protocolVersion, k, ⟨UInt16.ofNat flags⟩, UInt32.ofNat seq,
      UInt64.ofNat time⟩
    rw [UInt16.toNat_ofNat_of_lt' hflags, UInt32.toNat_ofNat_of_lt' hseq,
      UInt64.toNat_ofNat_of_lt' htime] at hbytes
    have hvalid : Valid ⟨protocolVersion, k, ⟨UInt16.ofNat flags⟩, UInt32.ofNat seq,
      UInt64.ofNat time⟩ := rfl
    refine ⟨_, hvalid, hbytes, ?_⟩
    intro r
    rw [← hbytes]
    exact split_toBytes hvalid r
  · intro b h r hs
    obtain ⟨hver, rfl⟩ := split_eq_ok hs
    have hfits := fits_header.mpr ⟨congrArg UInt8.toNat hver, ⟨h.kind, rfl⟩,
      h.flags.bits.toNat_lt, h.seq.toNat_lt, h.timestampUs.toNat_lt⟩
    exact ⟨_, hfits, by rw [toBytes_spell]⟩

/-! ### Media descriptors -/

theorem fits_videoInfo {display codec reserved width height duration : ℕ} :
    Fits videoInfoLayout (display, codec, reserved, width, height, duration, ()) ↔
      display < 2 ^ 8 ∧ (∃ c : VideoCodec, videoCodecId c = codec) ∧ reserved < 2 ^ 16 ∧
        (0 < width ∧ width < 2 ^ 16) ∧ (0 < height ∧ height < 2 ^ 16) ∧ duration < 2 ^ 32 := by
  have hcodec : codec ∈ VideoCodec.all.map videoCodecId ↔
      ∃ c : VideoCodec, videoCodecId c = codec := by
    rw [List.mem_map]
    exact exists_congr fun c => and_iff_right (by cases c <;> decide)
  simp only [videoInfoLayout, Fits, Field.among, Field.checked, Field.kept, Field.reserved,
    List.contains_iff_mem, hcodec, decide_eq_true_eq, and_true, true_and]
  constructor
  · rintro ⟨hd, -, hc, hr, hw, hw0, hh, hh0, ht⟩
    exact ⟨hd, hc, hr, ⟨by omega, hw⟩, ⟨by omega, hh⟩, ht⟩
  · rintro ⟨hd, ⟨c, rfl⟩, hr, ⟨hw0, hw⟩, ⟨hh0, hh⟩, ht⟩
    exact ⟨hd, by cases c <;> decide, ⟨c, rfl⟩, hr, hw, by omega, hh, by omega, ht⟩

theorem VideoFrameInfo.split_spell {display reserved width height duration : ℕ} {codec : VideoCodec}
    (h : Fits videoInfoLayout (display, videoCodecId codec, reserved, width, height, duration, ()))
    (r : List UInt8) :
    split (spell videoInfoLayout
      (display, videoCodecId codec, reserved, width, height, duration, ()) ++ r) =
      .ok (⟨display, codec, width, height, duration⟩, r) := by
  obtain ⟨hd, -, hr, ⟨hw0, hw⟩, ⟨hh0, hh⟩, ht⟩ := fits_videoInfo.mp h
  simp only [split, bind_eq_ok, guard_eq_ok, Prod.exists, readInt_iff]
  refine ⟨display, _, ⟨hd, rfl⟩, videoCodecId codec, _, ⟨?_, rfl⟩, codec,
    videoCodecFromId_videoCodecId codec, reserved, _, ⟨hr, rfl⟩, width, _, ⟨hw, rfl⟩, height, _,
    ⟨hh, rfl⟩, duration, r, ⟨ht, rfl⟩, ?_, rfl⟩
  · cases codec <;> decide
  · simp only [Bool.or_eq_true, decide_eq_true_eq]
    omega

theorem VideoFrameInfo.spell_of_split {info : VideoFrameInfo} (h : split b = .ok (info, r)) :
    ∃ vs, Fits videoInfoLayout vs ∧ b = spell videoInfoLayout vs ++ r := by
  simp only [split, bind_eq_ok, guard_eq_ok, Prod.exists, readInt_iff, Bool.or_eq_true,
    decide_eq_true_eq, not_or] at h
  obtain ⟨display, _, ⟨hd, rfl⟩, codec, _, ⟨-, rfl⟩, c, hc, reserved, _, ⟨hr, rfl⟩, width, _,
    ⟨hw, rfl⟩, height, _, ⟨hh, rfl⟩, duration, _, ⟨ht, rfl⟩, ⟨hw0, hh0⟩, hout⟩ := h
  cases hout
  refine ⟨(display, codec, reserved, width, height, duration, ()), ?_, ?_⟩
  · exact fits_videoInfo.mpr ⟨hd, ⟨c, videoCodecId_of_fromId hc⟩, hr, ⟨by omega, hw⟩,
      ⟨by omega, hh⟩, ht⟩
  · simp [videoInfoLayout]

theorem VideoFrameInfo.toBytes_spell (info : VideoFrameInfo) :
    info.toBytes = spell videoInfoLayout (info.display, videoCodecId info.codec, 0, info.width,
      info.height, info.durationUs, ()) := by
  simp [toBytes, videoInfoLayout]

theorem VideoFrameInfo.fits {info : VideoFrameInfo} (h : info.Valid) :
    Fits videoInfoLayout (info.display, videoCodecId info.codec, 0, info.width, info.height,
      info.durationUs, ()) :=
  fits_videoInfo.mpr ⟨h.display, ⟨info.codec, rfl⟩, by decide, h.width, h.height, h.durationUs⟩

theorem VideoFrameInfo.faithful :
    Faithful videoInfoLayout VideoFrameInfo.Valid VideoFrameInfo.toBytes VideoFrameInfo.split := by
  refine .of_spellings ?_ ?_ fun b v r => spell_of_split
  · intro info h p
    rw [toBytes_spell]
    exact split_spell (fits h) p
  · rintro ⟨display, codec, reserved, width, height, duration, ⟨⟩⟩ hfits
    obtain ⟨hd, ⟨c, rfl⟩, hr, hw, hh, ht⟩ := fits_videoInfo.mp hfits
    refine ⟨⟨display, c, width, height, duration⟩, ⟨hd, hw, hh, ht⟩, ?_, split_spell hfits⟩
    rw [toBytes_spell]
    rfl

theorem fits_surfaceFrame {generation sequence : ℕ} :
    Fits surfaceFrameLayout (generation, sequence, ()) ↔
      (0 < generation ∧ generation < 2 ^ 32) ∧ sequence < 2 ^ 32 := by
  simp only [surfaceFrameLayout, Fits, Field.checked, Field.kept, decide_eq_true_eq, and_true]
  omega

theorem SurfaceFrameInfo.split_spell {generation sequence : ℕ}
    (h : Fits surfaceFrameLayout (generation, sequence, ())) (r : List UInt8) :
    split (spell surfaceFrameLayout (generation, sequence, ()) ++ r) =
      .ok (⟨generation, sequence⟩, r) := by
  obtain ⟨⟨hg0, hg⟩, hs⟩ := fits_surfaceFrame.mp h
  simp only [split, bind_eq_ok, guard_eq_ok, Prod.exists, readInt_iff]
  exact ⟨generation, _, ⟨hg, rfl⟩, sequence, r, ⟨hs, rfl⟩, by omega, rfl⟩

theorem SurfaceFrameInfo.spell_of_split {frame : SurfaceFrameInfo} (h : split b = .ok (frame, r)) :
    ∃ vs, Fits surfaceFrameLayout vs ∧ b = spell surfaceFrameLayout vs ++ r := by
  simp only [split, bind_eq_ok, guard_eq_ok, Prod.exists, readInt_iff] at h
  obtain ⟨generation, _, ⟨hg, rfl⟩, sequence, _, ⟨hs, rfl⟩, hg0, hout⟩ := h
  cases hout
  refine ⟨(generation, sequence, ()), ?_, ?_⟩
  · exact fits_surfaceFrame.mpr ⟨⟨by omega, hg⟩, hs⟩
  · simp [surfaceFrameLayout]

theorem SurfaceFrameInfo.faithful :
    Faithful surfaceFrameLayout SurfaceFrameInfo.Valid SurfaceFrameInfo.toBytes
      SurfaceFrameInfo.split := by
  have hbytes : ∀ g s, toBytes ⟨g, s⟩ = spell surfaceFrameLayout (g, s, ()) := fun g s => by
    simp [toBytes, surfaceFrameLayout]
  refine .of_spellings ?_ ?_ fun b v r => spell_of_split
  · intro frame h p
    rw [hbytes]
    exact split_spell (fits_surfaceFrame.mpr ⟨h.geometryGeneration, h.surfaceSequence⟩) p
  · rintro ⟨generation, sequence, ⟨⟩⟩ hfits
    obtain ⟨hg, hs⟩ := fits_surfaceFrame.mp hfits
    exact ⟨⟨generation, sequence⟩, ⟨hg, hs⟩, hbytes _ _, split_spell hfits⟩

/-- **A surface's descriptor inside a video record.** -/
theorem splitScoped_faithful :
    Faithful (videoInfoLayout ++ surfaceFrameLayout)
      (fun p : VideoFrameInfo × SurfaceFrameInfo => p.1.Valid ∧ p.2.Valid)
      (fun p => p.1.framePayload (p.2.framePayload [])) splitScoped := by
  have hbytes : (fun p : VideoFrameInfo × SurfaceFrameInfo =>
      p.1.framePayload (p.2.framePayload [])) = fun p => p.1.toBytes ++ p.2.toBytes := by
    funext p
    rw [VideoFrameInfo.framePayload, SurfaceFrameInfo.framePayload, List.append_nil]
  rw [hbytes]
  exact VideoFrameInfo.faithful.andThen SurfaceFrameInfo.faithful

theorem fits_audioInfo {codec channels frameMs reserved : ℕ} :
    Fits audioInfoLayout (codec, channels, frameMs, reserved, ()) ↔
      codec = 1 ∧ (1 ≤ channels ∧ channels ≤ 8) ∧ frameMs < 2 ^ 8 ∧ reserved < 2 ^ 8 := by
  simp only [audioInfoLayout, Fits, Field.among, Field.checked, Field.kept, Field.reserved,
    List.contains_iff_mem, List.mem_singleton, Bool.and_eq_true, decide_eq_true_eq, and_true,
    true_and]
  omega

theorem AudioFrameInfo.split_spell {channels frameMs reserved : ℕ}
    (h : Fits audioInfoLayout (1, channels, frameMs, reserved, ())) (r : List UInt8) :
    split (spell audioInfoLayout (1, channels, frameMs, reserved, ()) ++ r) =
      .ok (⟨.opus, channels, frameMs⟩, r) := by
  obtain ⟨-, ⟨hc1, hc8⟩, hf, hr⟩ := fits_audioInfo.mp h
  simp only [split, bind_eq_ok, guard_eq_ok, Prod.exists, readInt_iff, Bool.or_eq_true,
    decide_eq_true_eq]
  exact ⟨1, _, ⟨by decide, rfl⟩, by decide, channels, _, ⟨by omega, rfl⟩, frameMs, _, ⟨hf, rfl⟩,
    reserved, r, ⟨hr, rfl⟩, by omega, rfl⟩

theorem AudioFrameInfo.spell_of_split {info : AudioFrameInfo} (h : split b = .ok (info, r)) :
    ∃ vs, Fits audioInfoLayout vs ∧ b = spell audioInfoLayout vs ++ r := by
  simp only [split, bind_eq_ok, guard_eq_ok, Prod.exists, readInt_iff, Bool.or_eq_true,
    decide_eq_true_eq, not_or, not_not] at h
  obtain ⟨_, _, ⟨-, rfl⟩, rfl, channels, _, ⟨hc, rfl⟩, frameMs, _, ⟨hf, rfl⟩, reserved, _,
    ⟨hr, rfl⟩, ⟨hc0, hc8⟩, hout⟩ := h
  cases hout
  refine ⟨(1, channels, frameMs, reserved, ()), ?_, ?_⟩
  · exact fits_audioInfo.mpr ⟨rfl, by omega, hf, hr⟩
  · simp [audioInfoLayout]

theorem AudioFrameInfo.faithful :
    Faithful audioInfoLayout AudioFrameInfo.Valid AudioFrameInfo.toBytes AudioFrameInfo.split := by
  have hbytes : ∀ c n m, toBytes ⟨c, n, m⟩ = spell audioInfoLayout (1, n, m, 0, ()) :=
    fun c n m => by simp [toBytes, audioInfoLayout]
  refine .of_spellings ?_ ?_ fun b v r => spell_of_split
  · rintro ⟨⟨⟩, channels, frameMs⟩ h p
    rw [hbytes]
    exact split_spell (fits_audioInfo.mpr ⟨rfl, h.channels, h.frameMs, by decide⟩) p
  · rintro ⟨codec, channels, frameMs, reserved, ⟨⟩⟩ hfits
    obtain ⟨rfl, hc, hf, -⟩ := fits_audioInfo.mp hfits
    exact ⟨⟨.opus, channels, frameMs⟩, ⟨hc, hf⟩, hbytes _ _ _, split_spell hfits⟩

/-! ### Clipboard contents and file transfer -/

theorem fits_clipboardData {offerId format r₁ r₂ r₃ : ℕ} :
    Fits clipboardDataLayout (offerId, format, r₁, r₂, r₃, ()) ↔
      offerId < 2 ^ 64 ∧ (∃ f : ClipboardFormat, f.toU8.toNat = format) ∧ r₁ < 2 ^ 8 ∧
        r₂ < 2 ^ 8 ∧ r₃ < 2 ^ 8 := by
  have hformat : format ∈ ClipboardFormat.all.map (·.toU8.toNat) ↔
      ∃ f : ClipboardFormat, f.toU8.toNat = format := by
    rw [List.mem_map]
    exact exists_congr fun f => and_iff_right (by cases f <;> decide)
  simp only [clipboardDataLayout, Fits, Field.among, Field.checked, Field.kept, Field.reserved,
    List.contains_iff_mem, hformat, and_true, true_and]
  constructor
  · rintro ⟨ho, -, hf, h₁, h₂, h₃⟩
    exact ⟨ho, hf, h₁, h₂, h₃⟩
  · rintro ⟨ho, ⟨f, rfl⟩, h₁, h₂, h₃⟩
    exact ⟨ho, f.toU8.toNat_lt, ⟨f, rfl⟩, h₁, h₂, h₃⟩

theorem ClipboardDataHeader.split_spell {offerId r₁ r₂ r₃ : ℕ} {format : ClipboardFormat}
    (h : Fits clipboardDataLayout (offerId, format.toU8.toNat, r₁, r₂, r₃, ())) (r : List UInt8) :
    split (spell clipboardDataLayout (offerId, format.toU8.toNat, r₁, r₂, r₃, ()) ++ r) =
      .ok (⟨offerId, format⟩, r) := by
  obtain ⟨ho, -, h₁, h₂, h₃⟩ := fits_clipboardData.mp h
  simp only [split, bind_eq_ok, Prod.exists, readInt_iff]
  refine ⟨offerId, _, ⟨ho, rfl⟩, format.toU8.toNat, _, ⟨format.toU8.toNat_lt, rfl⟩, format, ?_,
    r₁, _, ⟨h₁, rfl⟩, r₂, _, ⟨h₂, rfl⟩, r₃, r, ⟨h₃, rfl⟩, rfl⟩
  rw [UInt8.ofNat_toNat, ClipboardFormat.fromU8_toU8]

theorem ClipboardDataHeader.spell_of_split {header : ClipboardDataHeader}
    (h : split b = .ok (header, r)) :
    ∃ vs, Fits clipboardDataLayout vs ∧ b = spell clipboardDataLayout vs ++ r := by
  simp only [split, bind_eq_ok, Prod.exists, readInt_iff] at h
  obtain ⟨offerId, _, ⟨ho, rfl⟩, format, _, ⟨hlt, rfl⟩, f, hf, r₁, _, ⟨h₁, rfl⟩, r₂, _,
    ⟨h₂, rfl⟩, r₃, _, ⟨h₃, rfl⟩, hout⟩ := h
  cases hout
  refine ⟨(offerId, format, r₁, r₂, r₃, ()), ?_, ?_⟩
  · refine fits_clipboardData.mpr ⟨ho, ⟨f, ?_⟩, h₁, h₂, h₃⟩
    rw [ClipboardFormat.toU8_of_fromU8 hf, UInt8.toNat_ofNat_of_lt' hlt]
  · simp [clipboardDataLayout]

theorem ClipboardDataHeader.faithful :
    Faithful clipboardDataLayout ClipboardDataHeader.Valid ClipboardDataHeader.toBytes
      ClipboardDataHeader.split := by
  have hbytes : ∀ o f, toBytes ⟨o, f⟩ =
      spell clipboardDataLayout (o, f.toU8.toNat, 0, 0, 0, ()) := fun o f => by
    simp [toBytes, clipboardDataLayout, toLeBytes]
  refine .of_spellings (fun h hv p => split_payload hv p) ?_ fun b v r => spell_of_split
  rintro ⟨offerId, format, r₁, r₂, r₃, ⟨⟩⟩ hfits
  obtain ⟨ho, ⟨f, rfl⟩, -, -, -⟩ := fits_clipboardData.mp hfits
  exact ⟨⟨offerId, f⟩, ho, hbytes _ _, split_spell hfits⟩

theorem fits_fileChunk {transferId offset : ℕ} :
    Fits fileChunkLayout (transferId, offset, ()) ↔ transferId < 2 ^ 64 ∧ offset < 2 ^ 64 := by
  simp only [fileChunkLayout, Fits, Field.kept, and_true, true_and]
  exact Iff.rfl

theorem FileChunkHeader.split_iff {h : FileChunkHeader} :
    split b = .ok (h, r) ↔ h.Valid ∧ b = h.toBytes ++ r := by
  simp only [split, bind_eq_ok, Prod.exists, readInt_iff]
  constructor
  · rintro ⟨transferId, _, ⟨ht, rfl⟩, offset, _, ⟨ho, rfl⟩, hout⟩
    cases hout
    exact ⟨⟨ht, ho⟩, by simp [toBytes]⟩
  · rintro ⟨hv, rfl⟩
    exact ⟨h.transferId, _, ⟨hv.transferId, by rw [toBytes, List.append_assoc]⟩, h.offset, r,
      ⟨hv.offset, rfl⟩, rfl⟩

theorem FileChunkHeader.faithful :
    Faithful fileChunkLayout FileChunkHeader.Valid FileChunkHeader.toBytes
      FileChunkHeader.split := by
  have hbytes : ∀ t o, toBytes ⟨t, o⟩ = spell fileChunkLayout (t, o, ()) := fun t o => by
    simp [toBytes, fileChunkLayout]
  refine .of_spellings (fun h hv p => split_iff.mpr ⟨hv, rfl⟩) ?_ ?_
  · rintro ⟨transferId, offset, ⟨⟩⟩ hfits
    obtain ⟨ht, ho⟩ := fits_fileChunk.mp hfits
    refine ⟨⟨transferId, offset⟩, ⟨ht, ho⟩, hbytes _ _, ?_⟩
    intro r
    rw [← hbytes]
    exact split_iff.mpr ⟨⟨ht, ho⟩, rfl⟩
  · intro b h r hs
    obtain ⟨hv, rfl⟩ := split_iff.mp hs
    exact ⟨(h.transferId, h.offset, ()), fits_fileChunk.mpr ⟨hv.transferId, hv.offset⟩, by
      rw [← hbytes]⟩

theorem fits_fileAck {transferId received window : ℕ} :
    Fits fileAckLayout (transferId, received, window, ()) ↔
      transferId < 2 ^ 64 ∧ received < 2 ^ 64 ∧ 0 < window ∧ window < 2 ^ 32 := by
  simp only [fileAckLayout, Fits, Field.checked, Field.kept, decide_eq_true_eq, and_true, true_and]
  omega

theorem FileAck.decode_iff {b : List UInt8} {a : FileAck} :
    decode b = .ok a ↔ a.Valid ∧ ∃ r, b = a.toBytes ++ r := by
  simp only [decode, bind_eq_ok, guard_eq_ok, Prod.exists, readInt_iff]
  constructor
  · rintro ⟨transferId, _, ⟨ht, rfl⟩, received, _, ⟨hr, rfl⟩, window, r, ⟨hw, rfl⟩, hw0, hout⟩
    cases hout
    exact ⟨⟨ht, hr, Nat.pos_of_ne_zero hw0, hw⟩, r, by simp [toBytes]⟩
  · rintro ⟨hv, r, rfl⟩
    refine ⟨a.transferId, _, ⟨hv.transferId, by rw [toBytes, List.append_assoc]⟩, a.received, _,
      ⟨hv.received, by rw [List.append_assoc]⟩, a.window, r, ⟨hv.window.2, rfl⟩, ?_, rfl⟩
    have hpos := hv.window.1
    omega

theorem FileAck.faithful :
    Faithful fileAckLayout FileAck.Valid FileAck.toBytes
      fun b => (FileAck.decode b).map fun a => (a, b.drop FileAck.len) := by
  have hbytes : ∀ t r w, toBytes ⟨t, r, w⟩ = spell fileAckLayout (t, r, w, ()) := fun t r w => by
    simp [toBytes, fileAckLayout]
  have hmap : ∀ b a r, (decode b).map (fun a => (a, b.drop FileAck.len)) = .ok (a, r) ↔
      a.Valid ∧ b = a.toBytes ++ r := by
    intro b a r
    have hlen : a.toBytes.length = FileAck.len := by simp [toBytes, FileAck.len]
    constructor
    · intro h
      cases hd : decode b with
      | error e =>
        rw [hd] at h
        cases h
      | ok a' =>
        rw [hd] at h
        cases h
        obtain ⟨hv, r, rfl⟩ := decode_iff.mp hd
        exact ⟨hv, by rw [List.drop_left' hlen]⟩
    · rintro ⟨hv, rfl⟩
      rw [decode_iff.mpr ⟨hv, r, rfl⟩, List.drop_left' hlen]
      rfl
  refine .of_spellings (fun a hv p => (hmap _ _ _).mpr ⟨hv, rfl⟩) ?_ ?_
  · rintro ⟨transferId, received, window, ⟨⟩⟩ hfits
    obtain ⟨ht, hr, hw⟩ := fits_fileAck.mp hfits
    refine ⟨⟨transferId, received, window⟩, ⟨ht, hr, hw⟩, hbytes _ _ _, ?_⟩
    intro r
    rw [← hbytes]
    exact (hmap _ _ _).mpr ⟨⟨ht, hr, hw⟩, rfl⟩
  · intro b a r hs
    obtain ⟨hv, rfl⟩ := (hmap _ _ _).mp hs
    exact ⟨(a.transferId, a.received, a.window, ()),
      fits_fileAck.mpr ⟨hv.transferId, hv.received, hv.window⟩, by rw [← hbytes]⟩

/-! ### Input events -/

theorem isFinite_of_unitRange (h : UnitRange v) : v.isFinite = true := by
  simp only [UnitRange, F32.le, Bool.and_eq_true, Bool.not_eq_true', decide_eq_true_eq] at h
  obtain ⟨⟨-, hlo⟩, -, hhi⟩ := h
  have hone : (⟨0x3f800000⟩ : F32).key = 0x3f800000 := rfl
  have hzero : (⟨0⟩ : F32).key = 0 := rfl
  rw [hone] at hhi
  rw [hzero] at hlo
  simp only [F32.isFinite, decide_eq_true_eq]
  -- With the sign bit set only the zero is left.
  unfold F32.key at hlo hhi
  split at hlo
  · omega
  · omega

theorem clampUnit_of_unitRange (h : UnitRange v) : clampUnit v = v := by
  simp only [UnitRange, F32.le, Bool.and_eq_true, decide_eq_true_eq] at h
  obtain ⟨⟨-, hlo⟩, -, hhi⟩ := h
  have hlow : v.lt ⟨0⟩ = false := by
    simp only [F32.lt, Bool.and_eq_false_imp, decide_eq_false_iff_not, not_lt]
    exact fun _ => hlo
  have hhigh : F32.lt ⟨0x3f800000⟩ v = false := by
    simp only [F32.lt, Bool.and_eq_false_imp, decide_eq_false_iff_not, not_lt]
    exact fun _ => hhi
  simp only [clampUnit, hlow, hhigh, Bool.false_eq_true, if_false]

theorem unitRange_clampUnit (h : v.isFinite = true) : UnitRange (clampUnit v) := by
  have hnan : v.isNan = false := by
    simp only [F32.isFinite, F32.isNan, decide_eq_true_eq, decide_eq_false_iff_not] at h ⊢
    omega
  unfold clampUnit
  split
  · exact ⟨by decide, by decide⟩
  · rename_i hlow
    split
    · exact ⟨by decide, by decide⟩
    · rename_i hhigh
      simp only [F32.lt, hnan, Bool.not_false, Bool.and_true, Bool.true_and, Bool.and_eq_true,
        decide_eq_true_eq, not_and, not_lt] at hlow hhigh
      simp only [UnitRange, F32.le, hnan, Bool.not_false, Bool.and_true, Bool.true_and,
        Bool.and_eq_true, decide_eq_true_eq]
      exact ⟨⟨by decide, hlow (by decide)⟩, by decide, hhigh (by decide)⟩

theorem readFinite_iff {field : String} :
    readFinite field b = .ok (v, r) ↔ v.isFinite = true ∧ b = toLeBytes 4 v.bits.toNat ++ r := by
  simp only [readFinite, bind_eq_ok, guard_eq_ok, Prod.exists, readInt_iff]
  constructor
  · rintro ⟨n, _, ⟨hn, rfl⟩, hfin, hout⟩
    cases hout
    refine ⟨by simpa using hfin, ?_⟩
    rw [BitVec.toNat_ofNat, Nat.mod_eq_of_lt (show n < 2 ^ 32 from hn)]
  · rintro ⟨hfin, rfl⟩
    exact ⟨v.bits.toNat, r, ⟨v.bits.isLt, rfl⟩, by simpa using hfin, by simp [pure, Except.pure]⟩

theorem readCoord_iff {field : String} :
    readCoord field b = .ok (v, r) ↔
      ∃ u : F32, u.isFinite = true ∧ b = toLeBytes 4 u.bits.toNat ++ r ∧ v = clampUnit u := by
  simp only [readCoord, bind_eq_ok, Prod.exists, readFinite_iff]
  constructor
  · rintro ⟨u, _, ⟨hfin, rfl⟩, hout⟩
    cases hout
    exact ⟨u, hfin, rfl, rfl⟩
  · rintro ⟨u, hfin, rfl, rfl⟩
    exact ⟨u, r, ⟨hfin, rfl⟩, rfl⟩

/-- The numbers an event's bytes spell. -/
def InputEvent.values (kind : InputKind) (button : MouseButton)
    (modifiers display reserved pointerId : ℕ) (x y scrollX scrollY : F32) (key unicode : ℕ) :
    Values inputEventLayout :=
  (kind.toU8, button.toU8, modifiers, display, reserved, pointerId, x.bits.toNat, y.bits.toNat,
    scrollX.bits.toNat, scrollY.bits.toNat, key, unicode, ())

theorem f32_ofNat_toNat (v : F32) : (⟨BitVec.ofNat 32 v.bits.toNat⟩ : F32) = v := by
  simp

/-- **The spellings of the layout are the spellings of an event's parts.** -/
theorem fits_inputEvent {vs : Values inputEventLayout} :
    Fits inputEventLayout vs ↔
      ∃ kind button modifiers display reserved pointerId x y scrollX scrollY key unicode,
        vs = InputEvent.values kind button modifiers display reserved pointerId x y scrollX scrollY
          key unicode ∧ modifiers < 2 ^ 16 ∧ display < 2 ^ 8 ∧ reserved < 2 ^ 8 ∧
        pointerId < 2 ^ 16 ∧ (x.isFinite = true ∧ y.isFinite = true) ∧
        (scrollX.isFinite = true ∧ scrollY.isFinite = true) ∧ key ≤ 0xe7 ∧ unicode < 2 ^ 32 := by
  constructor
  · obtain ⟨kind, button, modifiers, display, reserved, pointerId, x, y, scrollX, scrollY, key,
      unicode, ⟨⟩⟩ := vs
    simp only [inputEventLayout, coordField, finiteField, Fits, Field.among, Field.checked,
      Field.kept, Field.reserved, List.contains_iff_mem, List.mem_map, decide_eq_true_eq, and_true,
      true_and]
    rintro ⟨-, ⟨k, -, rfl⟩, -, ⟨b, -, rfl⟩, hm, hd, hr, hp, hx, hxf, hy, hyf, hsx, hsxf, hsy, hsyf,
      -, hk, hu⟩
    refine ⟨k, b, modifiers, display, reserved, pointerId, ⟨BitVec.ofNat 32 x⟩,
      ⟨BitVec.ofNat 32 y⟩, ⟨BitVec.ofNat 32 scrollX⟩, ⟨BitVec.ofNat 32 scrollY⟩, key, unicode, ?_,
      hm, hd, hr, hp, ⟨hxf, hyf⟩, ⟨hsxf, hsyf⟩, hk, hu⟩
    have hbits : ∀ n < 256 ^ 4, (BitVec.ofNat 32 n).toNat = n := fun n hn => by
      rw [BitVec.toNat_ofNat, Nat.mod_eq_of_lt (show n < 2 ^ 32 from hn)]
    rw [InputEvent.values, hbits x hx, hbits y hy, hbits scrollX hsx, hbits scrollY hsy]
  · rintro ⟨k, b, modifiers, display, reserved, pointerId, x, y, scrollX, scrollY, key, unicode,
      rfl, hm, hd, hr, hp, ⟨hx, hy⟩, ⟨hsx, hsy⟩, hk, hu⟩
    simp only [inputEventLayout, coordField, finiteField, InputEvent.values, Fits, Field.among,
      Field.checked, Field.kept, Field.reserved, List.contains_iff_mem, List.mem_map,
      decide_eq_true_eq, f32_ofNat_toNat, and_true, true_and]
    exact ⟨by cases k <;> decide, ⟨k, by cases k <;> decide, rfl⟩, by cases b <;> decide,
      ⟨b, by cases b <;> decide, rfl⟩, hm, hd, hr, hp, x.bits.isLt, hx, y.bits.isLt, hy,
      scrollX.bits.isLt, hsx, scrollY.bits.isLt, hsy, by omega, hk, hu⟩

theorem InputEvent.decode_spell {kind : InputKind} {button : MouseButton}
    {modifiers display reserved pointerId : ℕ} {x y scrollX scrollY : F32} {key unicode : ℕ}
    (hm : modifiers < 2 ^ 16) (hd : display < 2 ^ 8) (hr : reserved < 2 ^ 8)
    (hp : pointerId < 2 ^ 16) (hpos : x.isFinite = true ∧ y.isFinite = true)
    (hscroll : scrollX.isFinite = true ∧ scrollY.isFinite = true) (hk : key ≤ 0xe7)
    (hu : unicode < 2 ^ 32) (r : List UInt8) :
    decode (spell inputEventLayout (values kind button modifiers display reserved pointerId x y
      scrollX scrollY key unicode) ++ r) =
      .ok (⟨kind, button, modifiers, display, pointerId, clampUnit x, clampUnit y, scrollX,
        scrollY, key, unicode⟩, r) := by
  simp only [decode, bind_eq_ok, guard_eq_ok, Prod.exists, readInt_iff, readCoord_iff,
    readFinite_iff]
  refine ⟨kind.toU8, _, ⟨by cases kind <;> decide, rfl⟩, kind, InputKind.fromU8_toU8 kind,
    button.toU8, _, ⟨by cases button <;> decide, rfl⟩, button, MouseButton.fromU8_toU8 button,
    modifiers, _, ⟨hm, rfl⟩, display, _, ⟨hd, rfl⟩, reserved, _, ⟨hr, rfl⟩, pointerId, _,
    ⟨hp, rfl⟩, _, _, ⟨x, hpos.1, rfl, rfl⟩, _, _, ⟨y, hpos.2, rfl, rfl⟩, scrollX, _,
    ⟨hscroll.1, rfl⟩, scrollY, _, ⟨hscroll.2, rfl⟩, key, _, ⟨by omega, rfl⟩, unicode, r,
    ⟨hu, rfl⟩, by omega, rfl⟩

theorem InputEvent.spell_of_decode {e : InputEvent} (h : decode b = .ok (e, r)) :
    ∃ vs, Fits inputEventLayout vs ∧ b = spell inputEventLayout vs ++ r := by
  simp only [decode, bind_eq_ok, guard_eq_ok, Prod.exists, readInt_iff, readCoord_iff,
    readFinite_iff] at h
  obtain ⟨_, _, ⟨-, rfl⟩, kind, hkind, _, _, ⟨-, rfl⟩, button, hbutton, modifiers, _, ⟨hm, rfl⟩,
    display, _, ⟨hd, rfl⟩, reserved, _, ⟨hr, rfl⟩, pointerId, _, ⟨hp, rfl⟩, _, _,
    ⟨x, hx, rfl, -⟩, _, _, ⟨y, hy, rfl, -⟩, scrollX, _, ⟨hsx, rfl⟩, scrollY, _, ⟨hsy, rfl⟩, key, _,
    ⟨-, rfl⟩, unicode, _, ⟨hu, rfl⟩, hk, hout⟩ := h
  cases hout
  obtain rfl := InputKind.toU8_of_fromU8 hkind
  obtain rfl := MouseButton.toU8_of_fromU8 hbutton
  refine ⟨values kind button modifiers display reserved pointerId x y scrollX scrollY key unicode,
    ?_, ?_⟩
  · exact fits_inputEvent.mpr ⟨kind, button, modifiers, display, reserved, pointerId, x, y, scrollX,
      scrollY, key, unicode, rfl, hm, hd, hr, hp, ⟨hx, hy⟩, ⟨hsx, hsy⟩, by omega, hu⟩
  · simp [inputEventLayout, coordField, finiteField, values]

theorem InputEvent.toBytes_spell (e : InputEvent) :
    e.toBytes = spell inputEventLayout (values e.kind e.button e.modifiers e.display 0 e.pointerId
      e.x e.y e.scrollX e.scrollY e.key e.unicode) := by
  simp [toBytes, inputEventLayout, coordField, finiteField, values]

theorem InputEvent.faithful :
    Faithful inputEventLayout InputEvent.Valid InputEvent.toBytes InputEvent.decode := by
  refine .of_spellings ?_ ?_ fun b v r => spell_of_decode
  · intro e h p
    obtain ⟨hx, hy⟩ := h.position
    rw [toBytes_spell, decode_spell h.modifiers h.display (by decide) h.pointerId
      ⟨isFinite_of_unitRange hx, isFinite_of_unitRange hy⟩ h.scroll h.key h.unicode,
      clampUnit_of_unitRange hx, clampUnit_of_unitRange hy]
  · intro vs hfits
    obtain ⟨kind, button, modifiers, display, reserved, pointerId, x, y, scrollX, scrollY, key,
      unicode, rfl, hm, hd, hr, hp, hpos, hscroll, hk, hu⟩ := fits_inputEvent.mp hfits
    refine ⟨⟨kind, button, modifiers, display, pointerId, clampUnit x, clampUnit y, scrollX,
      scrollY, key, unicode⟩, ?_, ?_, decode_spell hm hd hr hp hpos hscroll hk hu⟩
    · exact ⟨hm, hd, hp, ⟨unitRange_clampUnit hpos.1, unitRange_clampUnit hpos.2⟩, hscroll, hk, hu⟩
    · rw [toBytes_spell]
      simp only [values, inputEventLayout, coordField, finiteField, canon, Field.among,
        Field.checked, Field.kept, Field.reserved, f32_ofNat_toNat, id_eq]

end NebulaDesk
