/-
The client's reordering of video frames (`nebula-client/src/video.rs`).

Every frame travels on a stream of its own, so frames arrive out of order and
some not at all.  `VideoOrder` holds frames back until the ones before them have
come, starts again at any keyframe, and asks for one when a frame is missing for
too long.  The buffer never looks at a payload, so it is generic in it.  Times
are in nanoseconds; `position`, which counts frames in 64 bits, is a natural
number, as it grows by no more than `2 ^ 32` in a call (`Playback.position_le`).
-/
import NebulaDesk.Lib.Runs

namespace NebulaDesk

open Std (ExtTreeMap)

/-- Frames that are ready to decode, and whether to ask for a keyframe. -/
structure Ready (α : Type) where
  frames : List α
  askForKeyframe : Bool
deriving DecidableEq

/-- How many out-of-order frames to hold before giving up on the missing one. -/
def reorderWindow : ℕ := 16

/-- How long a missing reference may hold up decoding. -/
def reorderWait : ℕ := 120000000

def askAgain : ℕ := 500000000

/-- How far apart two sequence numbers are, whichever way round they came. -/
def distance (a b : UInt32) : ℕ := min (a - b).toNat (b - a).toNat

/-- The key with the largest value, and the last of those if there are several. -/
def maxByKey {κ : Type} (f : κ → ℕ) (keys : List κ) : Option κ :=
  keys.foldl (fun best key =>
    match best with
    | none => some key
    | some held => if f held ≤ f key then some key else some held) none

structure VideoOrder (α : Type) where
  /-- The sequence number wanted next, once a keyframe has anchored the stream. -/
  next : Option UInt32
  /-- Frames held back, by the position they will have in the stream. -/
  pending : ExtTreeMap ℕ α
  /-- How far `next` has advanced in total. -/
  position : ℕ
  /-- Frames that arrived while nothing was anchored, by sequence number. -/
  orphans : ExtTreeMap UInt32 α
  /-- When a keyframe was last asked for. -/
  asked : Option ℕ
  /-- When the current missing reference first held up decoding. -/
  gapSince : Option ℕ

namespace VideoOrder

variable {α : Type}

def new : VideoOrder α := ⟨none, ∅, 0, ∅, none, none⟩

def ask (now : ℕ) (o : VideoOrder α) : Ready α × VideoOrder α :=
  if o.asked.any fun at' => now - at' < askAgain then (⟨[], false⟩, o)
  else (⟨[], true⟩, { o with asked := some now })

def reset (now : ℕ) (o : VideoOrder α) : Ready α × VideoOrder α :=
  ask now { o with pending := ∅, orphans := ∅, next := none, gapSince := none }

/-- Start decoding from `seq`. -/
def anchor (seq : UInt32) (o : VideoOrder α) : VideoOrder α :=
  { o with pending := ∅, next := some seq, gapSince := none }

/-- Move one frame held while unanchored into place behind a keyframe. -/
def promoteOne (keyframe : UInt32) (o : VideoOrder α) (held : UInt32 × α) : VideoOrder α :=
  let ahead := (held.1 - keyframe).toNat
  if ahead = 0 ∨ ahead > reorderWindow then o
  else { o with pending := o.pending.insert (o.position + ahead) held.2 }

def promote (keyframe : UInt32) (o : VideoOrder α) : VideoOrder α :=
  o.orphans.toList.foldl (promoteOne keyframe) { o with orphans := ∅ }

/-- The loop of `drain`, with one turn of fuel for each frame that is held. -/
def drainLoop : ℕ → VideoOrder α → List α → VideoOrder α × List α
  | 0, o, frames => (o, frames)
  | fuel + 1, o, frames =>
    match o.pending[o.position]? with
    | none => (o, frames)
    | some payload =>
      drainLoop fuel
        { o with
          pending := o.pending.erase o.position
          position := o.position + 1
          next := some (o.next.getD 0 + 1) }
        (frames ++ [payload])

/-- Release the run of frames starting at the one wanted next. -/
def drain (now : ℕ) (o : VideoOrder α) : Ready α × VideoOrder α :=
  let (o, frames) := drainLoop o.pending.size o []
  (⟨frames, false⟩,
    if o.pending.isEmpty then { o with gapSince := none }
    else if !frames.isEmpty || o.gapSince.isNone then { o with gapSince := some now }
    else o)

/-- Hold a frame that nothing anchors yet. -/
def hold (seq : UInt32) (payload : α) (o : VideoOrder α) : VideoOrder α :=
  let near := o.orphans.filter fun held _ => decide (distance held seq ≤ reorderWindow)
  let orphans := near.insert seq payload
  if orphans.size > reorderWindow then
    match maxByKey (distance · seq) orphans.keys with
    | none => { o with orphans := orphans }
    | some farthest => { o with orphans := orphans.erase farthest }
  else { o with orphans := orphans }

/-- Take one arriving frame and return whatever is now ready to decode. -/
def acceptAt (seq : UInt32) (keyframe : Bool) (payload : α) (now : ℕ) (o : VideoOrder α) :
    Ready α × VideoOrder α :=
  match o.next with
  | none =>
    if !keyframe then (o.hold seq payload).ask now
    else
      let o := o.anchor seq
      let o := { o with pending := o.pending.insert o.position payload }
      (o.promote seq).drain now
  | some next =>
    let ahead := (seq - next).toNat
    if ahead ≥ (2 ^ 32 - 1) / 2 then
      -- it arrived after the picture had already moved past it
      (⟨[], false⟩, o)
    else if keyframe then
      let position := o.position + ahead
      let held := o.pending.filter fun place _ => decide (place ≥ position)
      drain now { o with
        position := position
        next := some seq
        gapSince := none
        pending := held.insert position payload }
    else
      let (ready, o) :=
        drain now { o with pending := o.pending.insert (o.position + ahead) payload }
      if o.pending.size > reorderWindow then o.reset now else (ready, o)

/-- Process an expired recovery timer. -/
def recoverAt (now : ℕ) (o : VideoOrder α) : Ready α × VideoOrder α :=
  if o.next.isNone then o.ask now
  else if o.gapSince.any fun at' => now - at' ≥ reorderWait then o.reset now
  else (⟨[], false⟩, o)

/-- A decoder error invalidates the reference chain just like a lost frame. -/
def decodeFailed (now : ℕ) (o : VideoOrder α) : Ready α × VideoOrder α := o.reset now

end VideoOrder

end NebulaDesk
