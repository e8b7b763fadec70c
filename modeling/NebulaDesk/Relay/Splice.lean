/-
One mirrored stream (`nebula-relay/src/splice.rs`, `copy`).

Bytes arrive on the near stream in any pieces, the relay reads and writes them in any pieces, and
the sender may finish or reset his stream at any point in between.  A reset discards what has not
been read.  A stream that its opener writes to begins with four bytes in the clear, which are read
before the loop, and whose end has an error path of its own.

* **`copy_mirrors`** — what is forwarded is a prefix of what was received, a finish follows
  exactly the bytes of a finish, and a reset gives a reset with its code, unless it comes before
  the relay has the prefix;
* **`early_reset_loses_code`** — then it gives a reset with the relay's own code.
-/
import NebulaDesk.Lib.Runs

namespace NebulaDesk

namespace Splice

open Runs

/-- How much of a stream to move in one copy step. -/
def chunk : ℕ := 64 * 1024

/-- The code used when tearing down a mirrored stream after an unclear error. -/
def errorCode : ℕ := 0x11

/-- How many bytes of prefix carry the urgency, and where in them it sits. -/
def prefixLength : ℕ := 4
def urgency : ℕ := 2

inductive NearEnd
  | finish
  | reset (code : ℕ)
  /-- The connection is lost. -/
  | lost
deriving DecidableEq

inductive FarEnd
  | finish
  | reset (code : ℕ)
deriving DecidableEq

/-- Where the copy is. -/
inductive Phase
  /-- In `read_exact`, with what it has so far. -/
  | opening (got : List UInt8)
  /-- In `read_chunk`. -/
  | reading
  /-- In `write_all` or `write_chunk`, with what is left. -/
  | writing (left : List UInt8)
  /-- The far stream is ended. -/
  | done
  /-- A write has failed, and the near stream is stopped. -/
  | broken
deriving DecidableEq

structure Copy where
  phase : Phase
  /-- All that has arrived in order, and what of it has not been read. -/
  received : List UInt8
  unread : List UInt8
  near : Option NearEnd
  forwarded : List UInt8
  far : Option FarEnd
  priority : Option UInt8
  /-- What went to `Counters`. -/
  counted : ℕ
deriving DecidableEq

def start (prefixed : Bool) : Copy where
  phase := if prefixed then .opening [] else .reading
  received := []
  unread := []
  near := none
  forwarded := []
  far := none
  priority := none
  counted := 0

inductive Event
  | arrive (bytes : List UInt8)
  /-- All bytes are here, and the sender has finished. -/
  | finished
  | reset (code : ℕ)
  | lost
  /-- The relay reads `n` bytes. -/
  | read (n : ℕ)
  /-- The relay reads, and there is nothing but the end. -/
  | readEnd
  /-- `n` bytes of a write are taken. -/
  | wrote (n : ℕ)
  | writeFails
deriving DecidableEq

namespace Copy

/-- The near stream is still looked at. -/
def live (s : Copy) : Bool := s.phase ≠ .done && s.phase ≠ .broken

/-- A read of `n` bytes in `read_exact`. -/
def readPrefix (s : Copy) (got : List UInt8) (n : ℕ) : Option Copy :=
  if 0 < n ∧ n ≤ s.unread.length ∧ got.length + n ≤ prefixLength then
    let got := got ++ s.unread.take n
    let s := { s with unread := s.unread.drop n }
    if got.length = prefixLength then
      some { s with phase := .writing got, priority := got[urgency]?, counted := s.counted + prefixLength }
    else some { s with phase := .opening got }
  else none

/-- A chunk of `n` bytes. -/
def readChunk (s : Copy) (n : ℕ) : Option Copy :=
  if 0 < n ∧ n ≤ s.unread.length ∧ n ≤ chunk then
    some { s with phase := .writing (s.unread.take n), unread := s.unread.drop n,
                  counted := s.counted + n }
  else none

/-- What the loop makes of an end. -/
def mirror : NearEnd → FarEnd
  | .finish => .finish
  | .reset code => .reset code
  | .lost => .reset errorCode

def close (s : Copy) (far : FarEnd) : Copy := { s with phase := .done, far := some far }

def step (s : Copy) : Event → Option Copy
  | .arrive bytes =>
    if s.live ∧ s.near = none then
      some { s with received := s.received ++ bytes, unread := s.unread ++ bytes }
    else none
  | .finished => if s.live ∧ s.near = none then some { s with near := some .finish } else none
  | .reset code =>
    -- Even what has arrived with its finish is discarded, if it was not read.
    if s.live ∧ (s.near = none ∨ s.near = some .finish) then
      some { s with near := some (.reset code), unread := [] }
    else none
  | .lost => if s.live ∧ s.near = none then some { s with near := some .lost } else none
  | .read n =>
    match s.phase with
    | .opening got => s.readPrefix got n
    | .reading => s.readChunk n
    | _ => none
  | .readEnd =>
    match s.phase, s.unread, s.near with
    | .opening _, [], some _ => some (s.close (.reset errorCode))
    | .reading, [], some near => some (s.close (mirror near))
    | _, _, _ => none
  | .wrote n =>
    match s.phase with
    | .writing left =>
      if 0 < n ∧ n ≤ left.length then
        some { s with
          phase := if left.drop n = [] then .reading else .writing (left.drop n)
          forwarded := s.forwarded ++ left.take n }
      else none
    | _ => none
  | .writeFails =>
    match s.phase with
    | .writing _ => some { s with phase := .broken }
    | _ => none

/-- A reset has the relay's own code, or comes when the prefix has been read. -/
def timely (s : Copy) : Event → Bool
  | .reset code =>
    code = errorCode || match s.phase with
      | .opening _ => false
      | _ => true
  | _ => true

/-- The runs without another reset before the end of the prefix. -/
def stepTimely (s : Copy) (e : Event) : Option Copy := if s.timely e then s.step e else none

/-- The relay is left alone to go on. -/
def isRelay : Event → Bool
  | .read _ | .readEnd | .wrote _ => true
  | _ => false

/-- **Faithful mirroring.**  With a broken far stream there is nobody left to tell of a reset. -/
structure Mirrors (s : Copy) : Prop where
  bytes : s.forwarded <+: s.received
  finish : s.far = some .finish → s.near = some .finish ∧ s.forwarded = s.received
  reset : ∀ code, s.near = some (.reset code) → s.phase = .done → s.far = some (.reset code)
  /-- A reset is not left at that. -/
  told : ∀ code, s.near = some (.reset code) → s.live = true → ∃ events s',
    events.all isRelay = true ∧ tryRun step s events = some s' ∧ s'.far = some (.reset code)

/-! ### What has been read and not yet written -/

/-- The bytes between reading and writing. -/
def pending (s : Copy) : List UInt8 :=
  match s.phase with
  | .opening got => got
  | .writing left => left
  | _ => []

/-- A reset is the last that is known of the near stream. -/
def wasReset (s : Copy) : Bool :=
  match s.near with
  | some (.reset _) => true
  | _ => false

structure Inv (s : Copy) : Prop where
  bytes : s.forwarded ++ s.pending <+: s.received
  /-- Nothing is missing as long as there was no reset. -/
  whole : s.wasReset = false → s.live = true →
    s.received = s.forwarded ++ s.pending ++ s.unread
  empty : s.wasReset = true → s.unread = []
  opening : ∀ got code, s.phase = .opening got → s.near = some (.reset code) → code = errorCode
  writing : s.phase ≠ .writing []
  unended : s.live = true → s.far = none
  finish : s.far = some .finish → s.near = some .finish ∧ s.forwarded = s.received
  reset : ∀ code, s.near = some (.reset code) → s.phase = .done → s.far = some (.reset code)

theorem Inv.start (prefixed : Bool) : Inv (start prefixed) := by
  cases prefixed with
  | false | true => exact ⟨List.nil_prefix, fun _ _ => rfl, fun _ => rfl, nofun, nofun, fun _ => rfl,
      nofun, nofun⟩

variable {s s' : Copy} {n : ℕ} {code : ℕ}

/-- The near stream goes on or ends; the relay does not move. -/
theorem Inv.near (h : Inv s) (hlive : s.live = true) {received unread : List UInt8}
    {near : Option NearEnd}
    (hbytes : s.received <+: received)
    (hwhole : ({ s with near } : Copy).wasReset = false →
      received = s.forwarded ++ s.pending ++ unread)
    (hempty : ({ s with near } : Copy).wasReset = true → unread = [])
    (hopening : ∀ got code, s.phase = .opening got → near = some (.reset code) →
      code = errorCode) :
    Inv { s with received, unread, near } := by
  have hfar := h.unended hlive
  refine ⟨h.bytes.trans hbytes, fun hreset _ => hwhole hreset, hempty, hopening, h.writing,
    fun _ => hfar, fun hfinish => ?_, fun code _ hdone => ?_⟩
  · rw [show ({ s with received, unread, near } : Copy).far = s.far from rfl, hfar] at hfinish
    cases hfinish
  · have hphase : s.phase = .done := hdone
    simp [live, hphase] at hlive

theorem wasReset_of_none (h : s.near = none) : s.wasReset = false := by rw [wasReset, h]

theorem Inv.take (h : Inv s) (hlive : s.live = true) (hn : 0 < n) (hle : n ≤ s.unread.length)
    {phase : Phase} {priority : Option UInt8} {counted : ℕ}
    (hpending : ({ s with phase } : Copy).pending = s.pending ++ s.unread.take n)
    (hphase : (∃ got, phase = .opening got ∧ ∃ before, s.phase = .opening before) ∨
      ∃ left, phase = .writing left ∧ left ≠ []) :
    Inv { s with phase, unread := s.unread.drop n, priority, counted } := by
  have hreset : s.wasReset = false := by
    cases hwas : s.wasReset with
    | false => rfl
    | true =>
      rw [h.empty hwas, List.length_nil] at hle
      omega
  have hfar := h.unended hlive
  have hall := h.whole hreset hlive
  have hsplit : s.received =
      s.forwarded ++ (s.pending ++ s.unread.take n) ++ s.unread.drop n := by
    rw [hall, List.append_assoc, List.append_assoc, List.append_assoc, List.take_append_drop]
  have hnot : phase ≠ .done := by
    rcases hphase with ⟨got, rfl, -⟩ | ⟨left, rfl, -⟩ <;> exact nofun
  constructor
  case bytes =>
    show s.forwarded ++ ({ s with phase } : Copy).pending <+: s.received
    rw [hpending, hsplit]
    exact List.prefix_append _ _
  case whole =>
    intro _ _
    show s.received = s.forwarded ++ ({ s with phase } : Copy).pending ++ s.unread.drop n
    rw [hpending]
    exact hsplit
  case empty =>
    intro hwas
    have hsame : s.wasReset = true := hwas
    rw [hreset] at hsame
    cases hsame
  case opening =>
    intro got code hopening hnear
    rcases hphase with ⟨_, _, before, hbefore⟩ | ⟨left, hleft, -⟩
    · exact h.opening before code hbefore hnear
    · have hphase' : phase = .opening got := hopening
      rw [hleft] at hphase'
      cases hphase'
  case writing =>
    rcases hphase with ⟨got, rfl, -⟩ | ⟨left, rfl, hne⟩
    · exact nofun
    · exact fun heq => hne (Phase.writing.inj heq)
  case unended => exact fun _ => hfar
  case finish =>
    intro hfinish
    have hsome : s.far = some .finish := hfinish
    rw [hfar] at hsome
    cases hsome
  case reset => exact fun _ _ hdone => absurd hdone hnot

theorem Inv.read (h : Inv s) (hs : s.step (.read n) = some s') : Inv s' := by
  have hne : ∀ {bytes : List UInt8}, 0 < n → n ≤ s.unread.length → bytes ++ s.unread.take n ≠ [] := by
    intro bytes hn hle hnil
    have hlength := congrArg List.length (List.append_eq_nil_iff.mp hnil).2
    rw [List.length_take, List.length_nil] at hlength
    omega
  unfold step at hs
  dsimp only at hs
  split at hs
  · next got hphase =>
    have hlive : s.live = true := by simp [live, hphase]
    have hpending : s.pending = got := by rw [pending, hphase]
    unfold readPrefix at hs
    split at hs
    · next hguard =>
      obtain ⟨hn, hle, -⟩ := hguard
      dsimp only at hs
      split at hs
      · cases hs
        refine h.take hlive hn hle ?_ (.inr ⟨_, rfl, hne hn hle⟩)
        rw [hpending]
        rfl
      · cases hs
        refine h.take hlive hn hle ?_ (.inl ⟨_, rfl, got, hphase⟩)
        rw [hpending]
        rfl
    · cases hs
  · next hphase =>
    have hlive : s.live = true := by simp [live, hphase]
    have hpending : s.pending = [] := by rw [pending, hphase]
    unfold readChunk at hs
    split at hs
    · next hguard =>
      obtain ⟨hn, hle, -⟩ := hguard
      cases hs
      refine h.take hlive hn hle ?_ (.inr ⟨_, rfl, @hne [] hn hle⟩)
      rw [hpending]
      rfl
    · cases hs
  · cases hs

/-- The copy is over; nothing more is read or written. -/
theorem Inv.over (h : Inv s) {phase : Phase} {far : Option FarEnd}
    (hphase : phase = .done ∨ phase = .broken)
    (hfinish : far = some .finish → s.near = some .finish ∧ s.forwarded = s.received)
    (hreset : ∀ code, s.near = some (.reset code) → phase = .done → far = some (.reset code)) :
    Inv { s with phase, far } := by
  have hpending : ({ s with phase, far } : Copy).pending = [] := by
    rcases hphase with rfl | rfl <;> rfl
  have hlive : ({ s with phase, far } : Copy).live = false := by
    rcases hphase with rfl | rfl <;> rfl
  constructor
  case bytes =>
    rw [hpending, List.append_nil]
    exact (List.prefix_append _ _).trans h.bytes
  case whole =>
    intro _ hon
    rw [hlive] at hon
    cases hon
  case empty => exact h.empty
  case opening =>
    intro got code hopening
    rcases hphase with rfl | rfl <;> cases hopening
  case writing => rcases hphase with rfl | rfl <;> exact nofun
  case unended =>
    intro hon
    rw [hlive] at hon
    cases hon
  case finish => exact hfinish
  case reset => exact hreset

theorem Inv.readEnd (h : Inv s) (hs : s.step .readEnd = some s') : Inv s' := by
  unfold step at hs
  dsimp only at hs
  split at hs
  · next got near hphase hunread hnear =>
    cases hs
    refine h.over (.inl rfl) (fun hfinish => (by cases hfinish)) fun code hcode _ => ?_
    rw [h.opening got code hphase hcode]
  · next near hphase hunread hnear =>
    cases hs
    refine h.over (.inl rfl) (fun hfinish => ?_) fun code hcode _ => ?_
    · cases near with
      | finish =>
        have hreset : s.wasReset = false := by rw [wasReset, hnear]
        have hall := h.whole hreset (by simp [live, hphase])
        have hpending : s.pending = [] := by rw [pending, hphase]
        rw [hpending, hunread, List.append_nil, List.append_nil] at hall
        exact ⟨hnear, hall.symm⟩
      | reset code => cases hfinish
      | lost => cases hfinish
    · rw [hnear] at hcode
      rw [Option.some.inj hcode]
      rfl
  · cases hs

theorem Inv.wrote (h : Inv s) (hs : s.step (.wrote n) = some s') : Inv s' := by
  unfold step at hs
  dsimp only at hs
  split at hs
  · next left hphase =>
    split at hs
    · next hguard =>
      have hlive : s.live = true := by simp [live, hphase]
      have hpending : s.pending = left := by rw [pending, hphase]
      have hfar := h.unended hlive
      have hbytes := h.bytes
      have hwhole := h.whole
      rw [hpending] at hbytes hwhole
      have hsplit : s.forwarded ++ left = s.forwarded ++ left.take n ++ left.drop n := by
        rw [List.append_assoc, List.take_append_drop]
      set phase : Phase := if left.drop n = [] then .reading else .writing (left.drop n)
      have hpending' : ({ s with phase } : Copy).pending = left.drop n := by
        by_cases hnil : left.drop n = []
        · simp [phase, pending, hnil]
        · simp [phase, pending, hnil]
      have hphase' : phase = .reading ∨ phase = .writing (left.drop n) ∧ left.drop n ≠ [] := by
        by_cases hnil : left.drop n = []
        · simp [phase, hnil]
        · simp [phase, hnil]
      cases hs
      constructor
      case bytes =>
        show s.forwarded ++ left.take n ++ ({ s with phase } : Copy).pending <+: s.received
        rwa [hpending', ← hsplit]
      case whole =>
        intro hreset _
        show s.received = s.forwarded ++ left.take n ++ ({ s with phase } : Copy).pending ++ s.unread
        rw [hpending', ← hsplit]
        exact hwhole hreset hlive
      case empty => exact h.empty
      case opening =>
        intro got code hopening
        have hopening' : phase = .opening got := hopening
        rcases hphase' with hread | ⟨hwrite, -⟩
        · rw [hread] at hopening'
          cases hopening'
        · rw [hwrite] at hopening'
          cases hopening'
      case writing =>
        show phase ≠ .writing []
        rcases hphase' with hread | ⟨hwrite, hne⟩
        · rw [hread]
          exact nofun
        · rw [hwrite]
          exact fun heq => hne (Phase.writing.inj heq)
      case unended => exact fun _ => hfar
      case finish =>
        intro hfinish
        have hsome : s.far = some .finish := hfinish
        rw [hfar] at hsome
        cases hsome
      case reset =>
        intro code _ hdone
        have hdone' : phase = .done := hdone
        rcases hphase' with hread | ⟨hwrite, -⟩
        · rw [hread] at hdone'
          cases hdone'
        · rw [hwrite] at hdone'
          cases hdone'
    · cases hs
  · cases hs

theorem Inv.writeFails (h : Inv s) (hs : s.step .writeFails = some s') : Inv s' := by
  unfold step at hs
  dsimp only at hs
  split at hs
  · next left hphase =>
    cases hs
    exact h.over (.inr rfl) h.finish nofun
  · cases hs

theorem Inv.step {e : Event} (h : Inv s) (hs : s.stepTimely e = some s') : Inv s' := by
  unfold stepTimely at hs
  split at hs
  · next htimely =>
    cases e with
    | read n => exact h.read hs
    | readEnd => exact h.readEnd hs
    | wrote n => exact h.wrote hs
    | writeFails => exact h.writeFails hs
    | arrive bytes =>
      simp only [Copy.step] at hs
      split at hs
      · next hguard =>
        obtain ⟨hlive, hnear⟩ := hguard
        cases hs
        have hreset := wasReset_of_none hnear
        refine @Inv.near s h hlive _ _ s.near (List.prefix_append _ _) (fun _ => ?_) (fun hwas => ?_)
          h.opening
        · rw [h.whole hreset hlive, List.append_assoc]
        · have hsame : s.wasReset = true := hwas
          rw [hreset] at hsame
          cases hsame
      · cases hs
    | finished | lost =>
      simp only [Copy.step] at hs
      split at hs
      · next hguard =>
        obtain ⟨hlive, hnear⟩ := hguard
        cases hs
        exact h.near hlive List.prefix_rfl (fun _ => h.whole (wasReset_of_none hnear) hlive) nofun
          nofun
      · cases hs
    | reset code =>
      simp only [Copy.step] at hs
      split at hs
      · next hguard =>
        obtain ⟨hlive, -⟩ := hguard
        cases hs
        refine h.near hlive List.prefix_rfl nofun (fun _ => rfl) fun got code' hopening hcode => ?_
        have hsame : code = code' := by injection Option.some.inj hcode
        rw [timely, hopening] at htimely
        rw [← hsame]
        simpa using htimely
      · cases hs
  · cases hs

theorem Inv.told (h : Inv s) (hnear : s.near = some (.reset code)) (hlive : s.live = true) :
    ∃ events s', events.all isRelay = true ∧ tryRun Copy.step s events = some s' ∧
      s'.far = some (.reset code) := by
  have hunread : s.unread = [] := h.empty (by rw [wasReset, hnear])
  cases hphase : s.phase with
  | opening got =>
    refine ⟨[.readEnd], s.close (.reset errorCode), rfl, ?_, ?_⟩
    · simp [tryRun, Copy.step, hphase, hunread, hnear]
    · rw [h.opening got code hphase hnear]
      rfl
  | reading =>
    refine ⟨[.readEnd], s.close (.reset code), rfl, ?_, rfl⟩
    simp [tryRun, Copy.step, hphase, hunread, hnear, mirror]
  | writing left =>
    have hne : left ≠ [] := fun hnil => h.writing (by rw [hphase, hnil])
    have hpos : 0 < left.length := List.length_pos_iff.mpr hne
    refine ⟨[.wrote left.length, .readEnd],
      ({ s with phase := .reading, forwarded := s.forwarded ++ left } : Copy).close (.reset code),
      rfl, ?_, rfl⟩
    simp [tryRun, Copy.step, hphase, hunread, hnear, mirror, hpos, close]
  | done => simp [live, hphase] at hlive
  | broken => simp [live, hphase] at hlive

theorem Inv.mirrors (h : Inv s) : Mirrors s where
  bytes := (List.prefix_append _ _).trans h.bytes
  __ := h
  told _ := h.told

/-- **The relay mirrors streams**, in every run in which no reset comes before the end of the
prefix. -/
theorem copy_mirrors (prefixed : Bool) (hr : Reach stepTimely (Splice.start prefixed) s) :
    Mirrors s :=
  (hr.invariant (Inv.start prefixed) fun _ _ _ h hs => Inv.step h hs).mirrors

/-- A frame that its sender gives up when most of it is through. -/
def abandoned : List Event :=
  [.arrive [0, 0, 5], .read 3, .arrive [0, 9, 9], .read 1, .wrote 4, .read 2, .arrive [7], .reset 3,
   .wrote 2, .readEnd]

theorem copy_mirrors_abandoned :
    ∃ s, tryRun stepTimely (Splice.start true) abandoned = some s ∧ Mirrors s :=
  have hrun : tryRun stepTimely (Splice.start true) abandoned = some _ := rfl
  ⟨_, hrun, copy_mirrors true (reach_of_tryRun .init hrun)⟩

/-- A reset behind three bytes. -/
theorem early_reset_loses_code :
    ∃ s, tryRun step (Splice.start true) [.arrive [0, 0, 5], .read 3, .reset 3, .readEnd] = some s ∧
      s.near = some (.reset 3) ∧ s.far = some (.reset 0x11) ∧ ¬ Mirrors s := by
  refine ⟨_, rfl, rfl, rfl, fun h => ?_⟩
  have hreset := h.reset 3 rfl rfl
  exact absurd hreset (by decide)

end Copy

end Splice

end NebulaDesk
