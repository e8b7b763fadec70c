/-
Playing the audio of a session (`nebula-client/src/audio.rs`).

Packets arrive whenever the network brings them, and the device asks for samples whenever it runs
low, so a shallow queue sits between them.  `given` and `heard` are all the samples so far on either
side, and `lost` counts those that were dropped.  The main result is `playback_whole_frames`.
-/
import NebulaDesk.Lib.Float32
import NebulaDesk.Lib.Runs
import NebulaDesk.Proto.Frames

namespace NebulaDesk

/-- A fixed-capacity queue of interleaved samples. -/
structure AudioRing where
  samples : List F32
  capacity : ℕ
  /-- Samples dropped because the ring was full, since the last report. -/
  dropped : ℕ

namespace AudioRing

def overflow (r : AudioRing) (samples : List F32) : ℕ :=
  r.samples.length + samples.length - r.capacity

/-- Add samples, discarding the oldest if there is no room. -/
def push (r : AudioRing) (samples : List F32) : AudioRing :=
  let overflow := r.overflow samples
  let r :=
    if overflow > 0 then
      let dropped := r.dropped + overflow
      { r with
        samples := r.samples.drop (min overflow r.samples.length)
        dropped := if dropped ≥ r.capacity then 0 else dropped }
    else r
  { r with samples := r.samples ++ samples }

/-- Fill so many slots with whatever is ready, and silence after that. -/
def drainInto : ℕ → AudioRing → List F32 × AudioRing
  | 0, r => ([], r)
  | slots + 1, r =>
    let out := drainInto slots { r with samples := r.samples.tail }
    (r.samples.head?.getD ⟨0⟩ :: out.1, out.2)

theorem push_samples (r : AudioRing) (samples : List F32) :
    (r.push samples).samples = r.samples.drop (r.overflow samples) ++ samples := by
  by_cases h : r.overflow samples > 0
  · simp [push, h]
  · simp [push, Nat.eq_zero_of_not_pos h]

@[simp] theorem push_capacity (r : AudioRing) (samples : List F32) :
    (r.push samples).capacity = r.capacity := by
  by_cases h : r.overflow samples > 0 <;> simp [push, h]

theorem drainInto_eq (slots : ℕ) (r : AudioRing) :
    r.drainInto slots = (r.samples.take slots ++
      List.replicate (slots - r.samples.length) ⟨0⟩, { r with samples := r.samples.drop slots }) := by
  induction slots generalizing r with
  | zero => simp [drainInto]
  | succ slots ih =>
    obtain ⟨samples, capacity, dropped⟩ := r
    cases samples with
    | nil => simp [drainInto, ih, List.replicate_succ]
    | cons sample samples => simp [drainInto, ih]

end AudioRing

/-- The playback of a session with so many channels. -/
structure AudioPlayback (channels : ℕ) where
  ring : AudioRing
  given : List F32
  heard : List F32
  lost : ℕ

namespace AudioPlayback

def sampleRate : ℕ := 48000

/-- How much decoded audio may wait for the output device, in milliseconds. -/
def ringMs : ℕ := 200

def opened (channels : ℕ) : ℕ := max 1 (min channels 2)

inductive PlayError
  | header (error : ProtoError)
  | channels (sent opened : ℕ)
  | decode (error : String)

variable {n : ℕ}

def start : AudioPlayback n := ⟨⟨[], sampleRate * n * ringMs / 1000, 0⟩, [], [], 0⟩

/-- What the decoder makes of a packet: frames of one sample for each channel, and not more of them
than the scratch buffer holds. -/
structure Decoded (channels : ℕ) where
  frames : List (Vector F32 channels)
  fits : frames.length ≤ sampleRate * 120 / 1000

def interleave (frames : List (Vector F32 n)) : List F32 := frames.flatMap Vector.toList

def queue (samples : List F32) (s : AudioPlayback n) : AudioPlayback n :=
  ⟨s.ring.push samples, s.given ++ samples, s.heard, s.lost + s.ring.overflow samples⟩

/-- Decode one payload from the audio channel and queue it for playback. -/
def play (payload : List UInt8) (decode : List UInt8 → Except String (Decoded n))
    (s : AudioPlayback n) : Except PlayError (AudioPlayback n) :=
  match AudioFrameInfo.split payload with
  | .error e => .error (.header e)
  | .ok (info, packet) =>
    if info.channels ≠ n then .error (.channels info.channels n)
    else match decode packet with
      | .error e => .error (.decode e)
      | .ok decoded => .ok (s.queue (interleave decoded.frames))

/-- The callback of the device, which asks for whole frames. -/
def callback (frames : ℕ) (s : AudioPlayback n) : List F32 × AudioPlayback n :=
  let out := s.ring.drainInto (frames * n)
  (out.1, { s with ring := out.2, heard := s.heard ++ out.1.take s.ring.samples.length })

inductive Act (channels : ℕ)
  | play (payload : List UInt8) (decode : List UInt8 → Except String (Decoded channels))
  | device (frames : ℕ)

/-- A payload that is refused changes nothing. -/
def step (s : AudioPlayback n) : Act n → AudioPlayback n
  | .play payload decode =>
    match s.play payload decode with
    | .ok s' => s'
    | .error _ => s
  | .device frames => (s.callback frames).2

/-! ### Frames stay whole -/

theorem split_interleave (frames : List (Vector F32 n)) (k : ℕ) :
    (interleave frames).take (k * n) = interleave (frames.take k) ∧
      (interleave frames).drop (k * n) = interleave (frames.drop k) := by
  unfold interleave
  induction k generalizing frames with
  | zero => simp
  | succ k ih =>
    cases frames with
    | nil => simp
    | cons f fs =>
      have hk : (k + 1) * n = f.toList.length + k * n := by
        rw [Vector.length_toList, Nat.succ_mul, Nat.add_comm]
      rw [hk, List.flatMap_cons, List.take_length_add_append, List.drop_length_add_append,
        (ih fs).1, (ih fs).2]
      exact ⟨rfl, rfl⟩

theorem length_interleave (frames : List (Vector F32 n)) :
    (interleave frames).length = frames.length * n := by
  simp [interleave, List.length_flatMap]

/-- What was given is frames that are past, some of them `played`, and the newest, which wait. -/
structure Whole (s : AudioPlayback n) (past played waiting : List (Vector F32 n)) : Prop where
  given : s.given = interleave (past ++ waiting)
  waits : s.ring.samples = interleave waiting
  heard : s.heard = interleave played
  order : played.Sublist past
  lost : past.length * n = played.length * n + s.lost

structure Inv (s : AudioPlayback n) : Prop where
  capacity : s.ring.capacity = 9600 * n
  latency : s.ring.samples.length ≤ 9600 * n
  whole : ∃ past played waiting, s.Whole past played waiting

variable {s : AudioPlayback n}

theorem Inv.queue (h : s.Inv) (d : Decoded n) : (s.queue (interleave d.frames)).Inv := by
  obtain ⟨past, played, waiting, hw⟩ := h.whole
  have hfits : d.frames.length ≤ 5760 := d.fits
  -- the overflow is whole frames, and no more of them than wait
  obtain ⟨k, hk⟩ : ∃ k, k = waiting.length + d.frames.length - 9600 := ⟨_, rfl⟩
  have hover : s.ring.overflow (interleave d.frames) = k * n := by
    rw [AudioRing.overflow, h.capacity, hw.waits, length_interleave, length_interleave, hk,
      ← Nat.add_mul, ← Nat.sub_mul]
  have hring : (s.ring.push (interleave d.frames)).samples =
      interleave (waiting.drop k ++ d.frames) := by
    rw [AudioRing.push_samples, hover, hw.waits, (split_interleave waiting k).2]
    exact List.flatMap_append.symm
  have hsplit : past ++ waiting.take k ++ (waiting.drop k ++ d.frames) =
      past ++ waiting ++ d.frames := by
    rw [List.append_assoc, ← List.append_assoc (List.take k waiting), List.take_append_drop,
      List.append_assoc]
  refine ⟨by simpa [AudioPlayback.queue] using h.capacity, ?_, past ++ waiting.take k, played,
    waiting.drop k ++ d.frames,
    ⟨?_, hring, hw.heard, hw.order.trans (List.sublist_append_left _ _), ?_⟩⟩
  · rw [AudioPlayback.queue, hring, length_interleave, List.length_append, List.length_drop]
    exact Nat.mul_le_mul_right n (by omega)
  · rw [AudioPlayback.queue, hsplit, hw.given]
    exact List.flatMap_append.symm
  · rw [AudioPlayback.queue, hover, List.length_append, List.length_take,
      Nat.min_eq_left (by omega), Nat.add_mul, hw.lost, Nat.add_assoc]

theorem Inv.callback (h : s.Inv) (frames : ℕ) : (s.callback frames).2.Inv := by
  obtain ⟨past, played, waiting, hw⟩ := h.whole
  obtain ⟨htake, hdrop⟩ := split_interleave waiting frames
  -- the silence starts where the samples that waited end
  have hheard : (s.ring.samples.take (frames * n) ++ List.replicate
      (frames * n - s.ring.samples.length) (⟨0⟩ : F32)).take s.ring.samples.length =
        s.ring.samples.take (frames * n) := by
    rcases Nat.le_total (frames * n) s.ring.samples.length with hle | hle
    · rw [Nat.sub_eq_zero_of_le hle, List.replicate_zero, List.append_nil, List.take_take,
        Nat.min_eq_right hle]
    · rw [List.take_of_length_le hle, List.take_left]
  unfold AudioPlayback.callback
  rw [AudioRing.drainInto_eq]
  refine ⟨h.capacity, (List.drop_sublist _ _).length_le.trans h.latency, past ++ waiting.take frames,
    played ++ waiting.take frames, waiting.drop frames,
    ⟨?_, by rw [hw.waits, hdrop], ?_, hw.order.append (.refl _), ?_⟩⟩
  · rw [List.append_assoc, List.take_append_drop, hw.given]
  · dsimp only
    rw [hheard, hw.heard, hw.waits, htake]
    exact List.flatMap_append.symm
  · dsimp only
    rw [List.length_append, List.length_append, Nat.add_mul, Nat.add_mul, hw.lost]
    omega

theorem Inv.step (h : s.Inv) (a : Act n) : (s.step a).Inv := by
  cases a with
  | device frames => exact h.callback frames
  | play payload decode =>
    unfold AudioPlayback.step
    dsimp only
    split
    · next hplay =>
      unfold AudioPlayback.play at hplay
      split at hplay
      · cases hplay
      · split at hplay
        · cases hplay
        · split at hplay <;> cases hplay
          exact h.queue _
    · exact h

/-- **What is heard are frames that were given, whole and in order, and none of them late.** -/
theorem playback_whole_frames (channels : ℕ) (acts : List (Act (opened channels))) :
    let s := Runs.run step start acts
    (∃ past played waiting : List (Vector F32 (opened channels)),
      s.given = interleave (past ++ waiting) ∧ s.ring.samples = interleave waiting ∧
      s.heard = interleave played ∧ played.Sublist past) ∧
    s.given.length = s.heard.length + s.lost + s.ring.samples.length ∧
    s.ring.samples.length ≤ sampleRate * opened channels * ringMs / 1000 ∧
    ∀ frames, (s.callback frames).1 = s.ring.samples.take (frames * opened channels) ++
      List.replicate (frames * opened channels - s.ring.samples.length) ⟨0⟩ := by
  intro s
  have hcapacity (n : ℕ) : sampleRate * n * ringMs / 1000 = 9600 * n := by
    unfold sampleRate ringMs
    omega
  have hstart : Inv (start (n := opened channels)) :=
    ⟨hcapacity _, Nat.zero_le _, [], [], [], rfl, rfl, rfl, .slnil, rfl⟩
  have h : s.Inv := Runs.run_invariant (P := Inv) (fun _ a h => h.step a) hstart acts
  obtain ⟨past, played, waiting, hw⟩ := h.whole
  refine ⟨⟨past, played, waiting, hw.given, hw.waits, hw.heard, hw.order⟩, ?_,
    hcapacity _ ▸ h.latency, fun frames => by rw [callback, AudioRing.drainInto_eq]⟩
  rw [hw.given, hw.waits, hw.heard, length_interleave, length_interleave, length_interleave,
    List.length_append, Nat.add_mul, hw.lost]

end AudioPlayback

end NebulaDesk
