/-
Recovering a broken picture (`nebula-client/src/video.rs`, `recovery_deadline` and `recover_at`).

The deadline comes from two timestamps: of the last request for a keyframe while nothing is
anchored, of the gap while something is.

* **`turn_acceptAt`**, **`turn_recoverAt`**, **`turn_reset`** — what one call does to the two;
* **`recovery_never_freezes`** — in every run with a clock that does not go back, requests are half
  a second apart, and a picture that is stuck has a deadline, at which a request is made or the
  deadline moves on by a bounded time.
-/
import NebulaDesk.Client.VideoRuns

namespace NebulaDesk

open Runs
open Std (ExtTreeMap)

namespace VideoOrder

variable {α : Type} {o t : VideoOrder α} {now : ℕ}

/-- Next recovery wakeup; `now` is what `Instant::now` says. -/
def recoveryDeadline (now : ℕ) (o : VideoOrder α) : Option ℕ :=
  if o.next.isNone then some (o.asked.elim now (· + askAgain))
  else o.gapSince.map (· + reorderWait)

/-- Unanchored after a request, or held up by a gap. -/
def Stuck (o : VideoOrder α) : Prop :=
  (o.next = none ∧ o.asked.isSome = true) ∨ (o.next.isSome = true ∧ o.pending.isEmpty = false)

/-- A gap is noted exactly while it holds up a frame. -/
def Noted (o : VideoOrder α) : Prop :=
  if o.next.isSome then (o.gapSince = none ↔ o.pending.isEmpty = true) else o.gapSince = none

/-- What a call at `now` does to the two timestamps. -/
structure Turn (now : ℕ) (o : VideoOrder α) (r : Ready α × VideoOrder α) : Prop where
  asks : r.1.askForKeyframe = true →
    r.2.asked = some now ∧ r.2.next = none ∧ ∀ at' ∈ o.asked, at' + askAgain ≤ now
  quiet : r.1.askForKeyframe = false → r.2.asked = o.asked
  gap : ∀ g ∈ r.2.gapSince, g = now ∨ g ∈ o.gapSince
  noted : Noted r.2

theorem noted_new : Noted (new : VideoOrder α) := rfl

theorem turn_ask (hnoted : t.Noted) (hnext : t.next = none) (hasked : t.asked = o.asked) :
    Turn now o (t.ask now) := by
  have hgap : t.gapSince = none := by simpa [Noted, hnext] using hnoted
  unfold ask
  split
  · exact ⟨fun h => (nomatch h), fun _ => hasked, by simp [hgap], hnoted⟩
  · next hlate =>
    refine ⟨fun _ => ⟨rfl, hnext, fun at' hat => ?_⟩, fun h => (nomatch h), by simp [hgap], ?_⟩
    · rw [hasked, Option.mem_def.mp hat] at hlate
      simp only [Option.any_some, decide_eq_true_eq, not_lt] at hlate
      have hpos : 0 < askAgain := by decide
      omega
    · simp [Noted, hnext, hgap]

theorem turn_reset (o : VideoOrder α) (hasked : o.asked = t.asked) : Turn now t (o.reset now) :=
  turn_ask rfl rfl hasked

/-- The loop of `drain` touches neither timestamp. -/
theorem drainLoop_rest (fuel : ℕ) (o : VideoOrder α) (frames : List α) :
    (drainLoop fuel o frames).1.asked = o.asked ∧
      (drainLoop fuel o frames).1.gapSince = o.gapSince ∧
      (o.next.isSome = true → (drainLoop fuel o frames).1.next.isSome = true) := by
  induction fuel generalizing o frames with
  | zero => exact ⟨rfl, rfl, id⟩
  | succ fuel ih =>
    unfold drainLoop
    split
    · exact ⟨rfl, rfl, id⟩
    · next payload _ =>
      obtain ⟨hasked, hgap, hnext⟩ := ih
        { o with
          pending := o.pending.erase o.position
          position := o.position + 1
          next := some (o.next.getD 0 + 1) } (frames ++ [payload])
      exact ⟨hasked, hgap, fun _ => hnext rfl⟩

theorem turn_drain (hnext : t.next.isSome = true) (hasked : t.asked = o.asked)
    (hgap : ∀ g ∈ t.gapSince, g ∈ o.gapSince) : Turn now o (t.drain now) := by
  unfold drain
  obtain ⟨hasked', hgap', hnext'⟩ := drainLoop_rest t.pending.size t []
  generalize drainLoop t.pending.size t [] = result at *
  obtain ⟨t', frames⟩ := result
  have hsome : t'.next.isSome = true := hnext' hnext
  have hgap' : t'.gapSince = t.gapSince := hgap'
  have hold : ∀ g ∈ t'.gapSince, g ∈ o.gapSince := by rwa [hgap']
  dsimp only
  refine ⟨fun h => (nomatch h), fun _ => ?_, ?_, ?_⟩
  · split
    · exact hasked'.trans hasked
    · split <;> exact hasked'.trans hasked
  · split
    · simp
    · split
      · simp
      · exact fun g hg => .inr (hold g hg)
  · split
    · next hempty => simp [Noted, hsome, hempty]
    · next hfull =>
      split
      · simp [Noted, hsome, hfull]
      · next hstill =>
        simp only [Bool.or_eq_true, Bool.not_eq_true', not_or] at hstill
        have hg : t'.gapSince ≠ none := fun hnone => hstill.2 (by rw [hnone]; rfl)
        simp [Noted, hsome, hfull, hg]

theorem hold_timers (seq : UInt32) (payload : α) (o : VideoOrder α) :
    (o.hold seq payload).next = o.next ∧ (o.hold seq payload).asked = o.asked ∧
      (o.hold seq payload).gapSince = o.gapSince ∧ (o.hold seq payload).pending = o.pending := by
  unfold hold
  dsimp only
  split
  · split <;> exact ⟨rfl, rfl, rfl, rfl⟩
  · exact ⟨rfl, rfl, rfl, rfl⟩

theorem promoteOne_timers (keyframe : UInt32) (held : List (UInt32 × α)) (o : VideoOrder α) :
    (held.foldl (promoteOne keyframe) o).next = o.next ∧
      (held.foldl (promoteOne keyframe) o).asked = o.asked ∧
      (held.foldl (promoteOne keyframe) o).gapSince = o.gapSince := by
  induction held generalizing o with
  | nil => exact ⟨rfl, rfl, rfl⟩
  | cons one held ih =>
    rw [List.foldl_cons]
    obtain ⟨hnext, hasked, hgap⟩ := ih (promoteOne keyframe o one)
    rw [hnext, hasked, hgap]
    unfold promoteOne
    dsimp only
    split <;> exact ⟨rfl, rfl, rfl⟩

theorem promote_timers (keyframe : UInt32) (o : VideoOrder α) :
    (o.promote keyframe).next = o.next ∧ (o.promote keyframe).asked = o.asked ∧
      (o.promote keyframe).gapSince = o.gapSince :=
  promoteOne_timers keyframe o.orphans.toList { o with orphans := ∅ }

theorem turn_acceptAt (hnoted : o.Noted) (seq : UInt32) (keyframe : Bool) (payload : α) :
    Turn now o (o.acceptAt seq keyframe payload now) := by
  unfold acceptAt
  split
  · next hnone =>
    split
    -- nothing is anchored, and this frame does not anchor
    · obtain ⟨hnext, hasked, hgap, -⟩ := hold_timers seq payload o
      refine turn_ask ?_ (hnext.trans hnone) hasked
      have hfree : o.gapSince = none := by simpa [Noted, hnone] using hnoted
      simp [Noted, hnext, hnone, hgap, hfree]
    · dsimp only
      refine turn_drain ?_ (promote_timers seq _).2.1 fun g hg => ?_
      · rw [(promote_timers seq _).1]
        rfl
      · rw [(promote_timers seq _).2.2] at hg
        cases hg
  · next next hsome =>
    dsimp only
    split
    · exact ⟨fun h => (nomatch h), fun _ => rfl, fun g hg => .inr hg, hnoted⟩
    split
    · exact turn_drain rfl rfl (by simp)
    · have hdrain : Turn now o (drain now
          { o with
            pending := o.pending.insert (o.position + (seq - next).toNat) payload }) :=
        turn_drain (by simp [hsome]) rfl fun g hg => hg
      generalize hr : drain now
        { o with pending := o.pending.insert (o.position + (seq - next).toNat) payload } = r
      rw [hr] at hdrain
      have hask : r.1.askForKeyframe = false := by
        rw [← hr]
        rfl
      split
      -- the frame being waited on is not coming
      · exact turn_reset r.2 (hdrain.quiet hask)
      · exact hdrain

theorem turn_recoverAt (hnoted : o.Noted) : Turn now o (o.recoverAt now) := by
  unfold recoverAt
  split
  · next hnone => exact turn_ask hnoted (Option.isNone_iff_eq_none.mp hnone) rfl
  · split
    · exact turn_reset o rfl
    · exact ⟨fun h => (nomatch h), fun _ => rfl, fun g hg => .inr hg, hnoted⟩

/-! ### Runs -/

/-- A buffer, the time of the last call, and the times of its requests. -/
structure Timed (α : Type) where
  order : VideoOrder α
  clock : ℕ
  requests : List ℕ

namespace Timed

def start : Timed α := ⟨.new, 0, []⟩

/-- A call at `now`, with what it returned. -/
def after (now : ℕ) (r : Ready α × VideoOrder α) (t : Timed α) : Timed α :=
  ⟨r.2, now, if r.1.askForKeyframe then t.requests ++ [now] else t.requests⟩

/-- The clock does not go back. -/
def step (t : Timed (List UInt8)) : VideoEvent → Option (Timed (List UInt8))
  | .accept seq keyframe payload now =>
    if t.clock ≤ now then some (t.after now (t.order.acceptAt seq keyframe payload now)) else none
  | .recover now => if t.clock ≤ now then some (t.after now (t.order.recoverAt now)) else none
  | .decodeFailed now =>
    if t.clock ≤ now then some (t.after now (t.order.decodeFailed now)) else none

structure Inv (t : Timed α) : Prop where
  noted : t.order.Noted
  asked : t.order.asked = t.requests.getLast?
  past : ∀ at' ∈ t.requests, at' ≤ t.clock
  spaced : t.requests.Pairwise fun a b => a + askAgain ≤ b
  gap : ∀ g ∈ t.order.gapSince, g ≤ t.clock ∧ ∀ at' ∈ t.requests, at' ≤ g

theorem inv_start : (start : Timed α).Inv where
  noted := noted_new
  asked := rfl
  past := by simp [start]
  spaced := .nil
  gap := by simp [start, new]

theorem Inv.after {t : Timed α} (h : t.Inv) {r : Ready α × VideoOrder α} (hclock : t.clock ≤ now)
    (hturn : Turn now t.order r) : (t.after now r).Inv := by
  have hpast : ∀ at' ∈ t.requests, at' ≤ now := fun at' hat => (h.past at' hat).trans hclock
  unfold Timed.after
  cases hask : r.1.askForKeyframe with
  | true =>
    obtain ⟨hasked, hnext, hlate⟩ := hturn.asks hask
    have hfree : r.2.gapSince = none := by simpa [Noted, hnext] using hturn.noted
    -- the last request is half a second ago, and with it all others
    have hall : ∀ at' ∈ t.requests, at' + askAgain ≤ now := by
      intro at' hat
      rcases List.eq_nil_or_concat t.requests with hnil | ⟨before, last, hlast⟩
      · rw [hnil] at hat
        cases hat
      · have hlater := hlate last (by rw [h.asked, hlast]; simp)
        rw [hlast, List.concat_eq_append, List.mem_append] at hat
        rcases hat with hat | hat
        · have hpair := h.spaced
          rw [hlast, List.concat_eq_append, List.pairwise_append] at hpair
          have := hpair.2.2 at' hat last (List.mem_singleton_self last)
          omega
        · rwa [List.mem_singleton.mp hat]
    refine ⟨hturn.noted, by simp [hasked], ?_, ?_, by simp [hfree]⟩
    · simp only [if_true]
      intro at' hat
      rcases List.mem_append.mp hat with hat | hat
      · exact hpast at' hat
      · exact (List.mem_singleton.mp hat).le
    · simp only [if_true]
      refine List.pairwise_append.mpr ⟨h.spaced, List.pairwise_singleton _ _, fun a ha b hb => ?_⟩
      rw [List.mem_singleton.mp hb]
      exact hall a ha
  | false =>
    refine ⟨hturn.noted, (hturn.quiet hask).trans h.asked, hpast, h.spaced, fun g hg => ?_⟩
    rcases hturn.gap g hg with rfl | hg
    · exact ⟨le_rfl, hpast⟩
    · exact ⟨(h.gap g hg).1.trans hclock, (h.gap g hg).2⟩

theorem inv_step {t t' : Timed (List UInt8)} (h : t.Inv) {e : VideoEvent}
    (hstep : t.step e = some t') : t'.Inv := by
  cases e with
  | accept seq keyframe payload now =>
    obtain ⟨hclock, heq⟩ := Option.ite_none_right_eq_some.mp hstep
    cases heq
    exact h.after hclock (turn_acceptAt h.noted seq keyframe payload)
  | recover now =>
    obtain ⟨hclock, heq⟩ := Option.ite_none_right_eq_some.mp hstep
    cases heq
    exact h.after hclock (turn_recoverAt h.noted)
  | decodeFailed now =>
    obtain ⟨hclock, heq⟩ := Option.ite_none_right_eq_some.mp hstep
    cases heq
    exact h.after hclock (turn_reset t.order rfl)

theorem inv_of_reach {t : Timed (List UInt8)} (hr : Reach step start t) : t.Inv :=
  hr.invariant inv_start fun _ _ _ h hstep => inv_step h hstep

/-! ### Deadlines -/

theorem due_unanchored (hnext : o.next = none) {at' deadline : ℕ} (hasked : o.asked = some at')
    (hdeadline : o.recoveryDeadline now = some deadline) {later : ℕ} (hlate : deadline ≤ later) :
    (o.recoverAt later).1.askForKeyframe = true := by
  simp only [recoveryDeadline, hnext, Option.isNone_none, if_true, hasked, Option.elim_some,
    Option.some.injEq] at hdeadline
  have hold : ¬ later - at' < askAgain := by omega
  simp [recoverAt, hnext, ask, hasked, hold]

theorem due_gap {g : ℕ} (hnext : o.next.isSome = true) (hgap : o.gapSince = some g)
    (hasked : ∀ at' ∈ o.asked, at' ≤ g) {later : ℕ} (hlate : g + reorderWait ≤ later) :
    (o.recoverAt later).1.askForKeyframe = true ∨
      ∃ deadline, (o.recoverAt later).2.recoveryDeadline later = some deadline ∧
        g + reorderWait < deadline ∧ deadline ≤ g + askAgain := by
  have hnone : o.next.isNone = false := by simpa using hnext
  have hexpired : reorderWait ≤ later - g := by omega
  have hrecover : o.recoverAt later = o.reset later := by
    simp [recoverAt, hnone, hgap, hexpired]
  rw [hrecover, reset]
  cases hat : o.asked with
  | none => exact .inl (by simp [ask])
  | some at' =>
    have hle := hasked at' hat
    by_cases hagain : later - at' < askAgain
    · refine .inr ⟨at' + askAgain, by simp [ask, hagain, recoveryDeadline], ?_, ?_⟩ <;> omega
    · exact .inl (by simp [ask, hagain])

end Timed

/-- Any two requests are at least half a second apart.  A buffer that is unanchored after a request
or has a gap before a frame has a deadline; recovering at any time from it on makes a request or
leaves a later deadline, by less than half a second.  Without a gap an anchored one has none. -/
theorem recovery_never_freezes {t : Timed (List UInt8)} (hr : Reach Timed.step Timed.start t) :
    t.requests.Pairwise (fun a b => a + askAgain ≤ b) ∧
      (t.order.Stuck → ∀ now, ∃ deadline, t.order.recoveryDeadline now = some deadline ∧
        ∀ later, deadline ≤ later →
          (t.order.recoverAt later).1.askForKeyframe = true ∨
            ∃ next, (t.order.recoverAt later).2.recoveryDeadline later = some next ∧
              deadline < next ∧ next ≤ deadline + (askAgain - reorderWait)) ∧
      (t.order.next.isSome = true → t.order.pending.isEmpty = true →
        ∀ now, t.order.recoveryDeadline now = none) := by
  have hinv := Timed.inv_of_reach hr
  refine ⟨hinv.spaced, ?_, ?_⟩
  · rintro (⟨hnext, hasked⟩ | ⟨hnext, hpending⟩) now
    · obtain ⟨at', hat⟩ := Option.isSome_iff_exists.mp hasked
      have hdeadline : t.order.recoveryDeadline now = some (at' + askAgain) := by
        simp [recoveryDeadline, hnext, hat]
      exact ⟨_, hdeadline, fun later hlate =>
        .inl (Timed.due_unanchored hnext hat hdeadline hlate)⟩
    · have hnoted : t.order.gapSince = none ↔ t.order.pending.isEmpty = true := by
        simpa [Noted, hnext] using hinv.noted
      obtain ⟨g, hg⟩ : ∃ g, t.order.gapSince = some g := by
        refine Option.ne_none_iff_exists'.mp fun hnone => ?_
        rw [hnoted.mp hnone] at hpending
        cases hpending
      have hasked : ∀ at' ∈ t.order.asked, at' ≤ g := by
        intro at' hat
        rw [hinv.asked] at hat
        exact (hinv.gap g hg).2 at' (List.mem_of_getLast? hat)
      have hnone : t.order.next.isNone = false := by simpa using hnext
      refine ⟨g + reorderWait, by simp [recoveryDeadline, hnone, hg], fun later hlate => ?_⟩
      rcases Timed.due_gap hnext hg hasked hlate with hasks | ⟨next, hdeadline, hlt, hle⟩
      · exact .inl hasks
      · have hwait : reorderWait ≤ askAgain := by decide
        exact .inr ⟨next, hdeadline, hlt, by omega⟩
  · intro hnext hempty now
    have hnoted : t.order.gapSince = none ↔ t.order.pending.isEmpty = true := by
      simpa [Noted, hnext] using hinv.noted
    have hnone : t.order.next.isNone = false := by simpa using hnext
    simp [recoveryDeadline, hnone, hnoted.mpr hempty]

/-- A keyframe is asked for, comes, and the frame behind it is lost. -/
theorem recovery_never_freezes_gap :
    ∃ t : Timed (List UInt8),
      Reach Timed.step Timed.start t ∧ t.requests = [5] ∧ t.order.Stuck ∧
        ∀ now, ∃ deadline, t.order.recoveryDeadline now = some deadline := by
  obtain ⟨t, hrun, hrequests, hstuck⟩ :
      ∃ t, tryRun Timed.step Timed.start
          [.accept 7 false [] 5, .accept 8 true [] 20, .accept 10 false [] 30] = some t ∧
        t.requests = [5] ∧ t.order.Stuck := by
    refine ⟨_, rfl, by decide, .inr ⟨by decide, by decide⟩⟩
  have hr := reach_of_tryRun .init hrun
  refine ⟨t, hr, hrequests, hstuck, fun now => ?_⟩
  obtain ⟨deadline, hdeadline, -⟩ := (recovery_never_freezes hr).2.1 hstuck now
  exact ⟨deadline, hdeadline⟩

end VideoOrder

end NebulaDesk
