/-
Runs of the video order (`nebula-client/src/video.rs`).

`video_order` is about every sequence of arrivals, recoveries and decoder errors:
what comes out can be decoded.  `video_forward_iff` says when it also never goes
back: the buffer drops frames behind the one it wants next, but it forgets which
one that was whenever it gives up on a missing frame.
-/
import NebulaDesk.Client.VideoTurns

namespace NebulaDesk

open Runs

inductive VideoEvent
  | accept (seq : UInt32) (keyframe : Bool) (payload : List UInt8) (now : ℕ)
  | recover (now : ℕ)
  | decodeFailed (now : ℕ)

/-- A buffer with all that came and all that went. -/
structure Playback where
  order : VideoOrder Arrival
  arrived : List Arrival
  released : List Arrival

namespace Playback

def new : Playback := ⟨.new, [], []⟩

def arrival (p : Playback) (seq : UInt32) (keyframe : Bool) (payload : List UInt8) : Arrival :=
  ⟨p.arrived.length, seq, keyframe, payload⟩

def step (p : Playback) : VideoEvent → Playback
  | .accept seq keyframe payload now =>
    let a := p.arrival seq keyframe payload
    let (ready, order) := p.order.acceptAt seq keyframe a now
    ⟨order, p.arrived ++ [a], p.released ++ ready.frames⟩
  | .recover now =>
    let (ready, order) := p.order.recoverAt now
    ⟨order, p.arrived, p.released ++ ready.frames⟩
  | .decodeFailed now =>
    let (ready, order) := p.order.decodeFailed now
    ⟨order, p.arrived, p.released ++ ready.frames⟩

/-- A frame that is no keyframe comes right after the frame before it. -/
def Follows (before : List Arrival) (a : Arrival) : Prop :=
  a.keyframe = false → ∃ b, before.getLast? = some b ∧ b.seq + 1 = a.seq

/-- The sequence number released last. -/
def last (p : Playback) : Option UInt32 := p.released.getLast?.map (·.seq)

structure Inv (p : Playback) : Prop where
  order : p.order.Inv p.last
  known : ∀ a, p.order.Held a ∨ a ∈ p.released → p.arrived[a.id]? = some a
  unreleased : ∀ a, p.order.Held a → a ∉ p.released
  nodup : p.released.Nodup
  follows : Each Follows p.released

theorem inv_new : new.Inv where
  order := VideoOrder.inv_new
  known := by
    rintro a ((⟨k, hk⟩ | ⟨q, hq⟩) | hr)
    · simp [new, VideoOrder.new] at hk
    · simp [new, VideoOrder.new] at hq
    · cases hr
  unreleased := fun _ _ => List.not_mem_nil
  nodup := List.nodup_nil
  follows := each_nil _

theorem follows_consecutive {n : UInt32} {before new : List Arrival} (h : Each Follows before)
    (hnew : Consecutive n new)
    (hfirst : ∀ a ∈ new.head?, Follows before a) : Each Follows (before ++ new) := by
  induction new generalizing before n with
  | nil =>
    rw [List.append_nil]
    exact h
  | cons a rest ih =>
    rw [List.append_cons]
    refine ih (h.snoc (hfirst a rfl)) hnew.2 ?_
    intro b hb _
    refine ⟨a, List.getLast?_concat, ?_⟩
    cases rest with
    | nil => cases hb
    | cons c rest =>
      cases hb
      rw [hnew.1, hnew.2.1]

variable {p : Playback} {arrival : Option Arrival}
  {result : Ready Arrival × VideoOrder Arrival}

theorem Inv.follows_call (h : p.Inv) (hcall : p.order.Call p.last arrival result) :
    Each Follows (p.released ++ result.1.frames) := by
  have hrelease := hcall.release
  generalize result.1.frames = new at hrelease ⊢
  cases hrelease with
  | none =>
    rw [List.append_nil]
    exact h.follows
  | onward n _ hn hnew =>
    refine follows_consecutive h.follows hnew ?_
    intro a ha _
    obtain ⟨-, b, hb, hbn⟩ := h.order.anchored n hn
    obtain ⟨c, hc, rfl⟩ := Option.map_eq_some_iff.mp hb
    refine ⟨c, hc, ?_⟩
    cases new with
    | nil => cases ha
    | cons d rest =>
      cases ha
      rw [hbn, hnew.1]
  | skipped n a rest hn harrival hkey hahead hnew | anchored a rest hn harrival hkey hnew =>
    refine follows_consecutive h.follows hnew ?_
    intro b hb hdelta
    cases hb
    rw [hkey] at hdelta
    cases hdelta

theorem Inv.call (h : p.Inv) (hcall : p.order.Call p.last arrival result)
    {arrived : List Arrival} (hkeep : ∀ (i : ℕ) a, p.arrived[i]? = some a → arrived[i]? = some a)
    (harrival : ∀ a, some a = arrival → arrived[a.id]? = some a ∧ p.arrived[a.id]? = none) :
    Inv ⟨result.2, arrived, p.released ++ result.1.frames⟩ := by
  -- an arrival of the call has not been seen before
  have hfresh : ∀ a, p.order.Held a ∨ some a = arrival → a ∉ p.released := by
    rintro a (hheld | hnew) hmem
    · exact h.unreleased a hheld hmem
    · have hknown := h.known a (.inr hmem)
      rw [(harrival a hnew).2] at hknown
      cases hknown
  have hknown : ∀ a, p.order.Held a ∨ some a = arrival → arrived[a.id]? = some a := by
    rintro a (hheld | hnew)
    · exact hkeep _ _ (h.known a (.inl hheld))
    · exact (harrival a hnew).1
  refine ⟨?_, ?_, ?_, ?_, h.follows_call hcall⟩
  · have hinv := hcall.inv
    have hlast : VideoOrder.lastOf p.last result.1.frames =
        last ⟨result.2, arrived, p.released ++ result.1.frames⟩ := by
      unfold VideoOrder.lastOf Playback.last
      rw [List.getLast?_append]
      cases result.1.frames.getLast? with
      | none => rfl
      | some b => rfl
    rw [hlast] at hinv
    exact hinv
  · rintro a (hheld | hmem)
    · exact hknown a (hcall.takes.kept a hheld).1
    · rcases List.mem_append.mp hmem with hold | hnew
      · exact hkeep _ _ (h.known a (.inr hold))
      · exact hknown a (hcall.takes.came a hnew)
  · intro a hheld hmem
    obtain ⟨hfrom, hnot⟩ := hcall.takes.kept a hheld
    rcases List.mem_append.mp hmem with hold | hnew
    · exact hfresh a hfrom hold
    · exact hnot hnew
  · refine List.Nodup.append h.nodup hcall.takes.nodup ?_
    intro a hold hnew
    exact hfresh a (hcall.takes.came a hnew) hold

theorem inv_step (h : p.Inv) (e : VideoEvent) : (p.step e).Inv := by
  cases e with
  | accept seq keyframe payload now =>
    refine h.call (VideoOrder.acceptAt_call h.order (p.arrival seq keyframe payload) now) ?_ ?_
    · intro i a ha
      rw [List.getElem?_append_left (List.getElem?_eq_some_iff.mp ha).1]
      exact ha
    · intro a ha
      cases ha
      exact ⟨List.getElem?_concat_length, List.getElem?_eq_none le_rfl⟩
  | recover now =>
    refine h.call (VideoOrder.recoverAt_call h.order now) (fun _ _ ha => ha) ?_
    intro a ha
    cases ha
  | decodeFailed now =>
    refine h.call (VideoOrder.decodeFailed_call p.order p.last now) (fun _ _ ha => ha) ?_
    intro a ha
    cases ha

theorem inv_run (events : List VideoEvent) : (run step new events).Inv :=
  run_invariant (P := Inv) (fun _ e h => inv_step h e) inv_new events

theorem position_step_le (h : p.Inv) (e : VideoEvent) :
    (p.step e).order.position ≤ p.order.position + 2 ^ 32 := by
  cases e with
  | accept seq keyframe payload now =>
    exact VideoOrder.position_acceptAt_le h.order (p.arrival seq keyframe payload) now
  | recover now =>
    refine le_trans (le_of_eq ?_) (Nat.le_add_right _ _)
    show (p.order.recoverAt now).2.position = _
    unfold VideoOrder.recoverAt
    split
    · exact VideoOrder.position_ask _ now
    · split
      · exact VideoOrder.position_ask _ now
      · rfl
  | decodeFailed now =>
    refine le_trans (le_of_eq ?_) (Nat.le_add_right _ _)
    exact VideoOrder.position_ask _ now

/-- **The position has room.**  It is a `u64`, which takes `2 ^ 32` calls to use up. -/
theorem position_le (events : List VideoEvent) :
    (run step new events).order.position ≤ 2 ^ 32 * events.length := by
  induction events using List.reverseRecOn with
  | nil => exact le_rfl
  | append_singleton events e ih =>
    have hstep := position_step_le (inv_run events) e
    rw [run_append, run_cons, run_nil, List.length_append, List.length_singleton]
    omega

/-- **Video order.**  Whatever arrives in whatever order, and whenever the buffer
recovers or is reset: a frame that is no keyframe comes out right after the frame
before it, no arrival comes out twice, what `drain` returned is returned, and
neither buffer is over its limit. -/
theorem video_order (events : List VideoEvent) :
    let p := run step new events
    Each Follows p.released ∧
      ((p.released.map (·.id)).Nodup ∧ ∀ a ∈ p.released, p.arrived[a.id]? = some a) ∧
      (∀ a t now, p.order.drained a.seq a.keyframe a = some t →
        (p.order.acceptAt a.seq a.keyframe a now).1.frames = (t.drain now).1.frames) ∧
      p.order.pending.size ≤ reorderWindow ∧ p.order.orphans.size ≤ reorderWindow := by
  intro p
  have h : p.Inv := inv_run events
  refine ⟨h.follows, ⟨?_, fun a ha => h.known a (.inr ha)⟩, ?_, h.order.pendingSize,
    h.order.orphansSize⟩
  · refine List.Nodup.map_on ?_ h.nodup
    intro a ha b hb heq
    have hka := h.known a (.inr ha)
    have hkb := h.known b (.inr hb)
    rw [heq, hkb] at hka
    exact (Option.some.inj hka).symm
  · intro a t now ht
    exact VideoOrder.acceptAt_frames h.order ht now

/-- Frames that overtook their keyframe come out behind it. -/
example :
    (run step new [.accept 2 false [] 0, .accept 1 false [] 0, .accept 0 true [] 0]).released.map
      (·.seq) = [0, 1, 2] := by
  decide +kernel

/-! ### Going back -/

/-- `b` comes before `a` in the order of a wrapping counter. -/
def Precedes (b a : UInt32) : Prop := 0 < (a - b).toNat ∧ (a - b).toNat < 2 ^ 31

/-- Every frame released before is an older one. -/
def Newest (before : List Arrival) (a : Arrival) : Prop := ∀ b ∈ before, Precedes b.seq a.seq

section Forward

variable {start n : UInt32} {count : ℕ}

theorem precedes_iff {a b : UInt32} (hcount : count < 2 ^ 31) (ha : (a - start).toNat < count)
    (hb : (b - start).toNat < count) : Precedes b a ↔ (b - start).toNat < (a - start).toNat := by
  have hsub := UInt32.toNat_sub a b
  have hsuba := UInt32.toNat_sub a start
  have hsubb := UInt32.toNat_sub b start
  have hlta := a.toNat_lt
  have hltb := b.toNat_lt
  have hlts := start.toNat_lt
  unfold Precedes
  omega

theorem index_succ (hn : (n - start).toNat < 2 ^ 31) :
    (n + 1 - start).toNat = (n - start).toNat + 1 := by
  have hsub := UInt32.toNat_sub (n + 1) start
  have hsub' := UInt32.toNat_sub n start
  have hsucc := toNat_succ n
  have hltn := n.toNat_lt
  have hlts := start.toNat_lt
  omega

theorem newest_consecutive (hcount : count < 2 ^ 31) {before new : List Arrival}
    (h : Each Newest before) (hnew : Consecutive n new)
    (hbound : ∀ a ∈ before ++ new, (a.seq - start).toNat < count)
    (hafter : ∀ b ∈ before, (b.seq - start).toNat < (n - start).toNat) :
    Each Newest (before ++ new) := by
  induction new generalizing before n with
  | nil =>
    rw [List.append_nil]
    exact h
  | cons a rest ih =>
    obtain ⟨rfl, hrest⟩ := hnew
    have ha := hbound a (List.mem_append_right _ List.mem_cons_self)
    rw [List.append_cons] at hbound ⊢
    refine ih (h.snoc ?_) hrest hbound ?_
    · intro b hb
      have hb' := hbound b (List.mem_append_left _ (List.mem_append_left _ hb))
      exact (precedes_iff hcount ha hb').mpr (hafter b hb)
    · intro b hb
      rw [index_succ (by omega)]
      rcases List.mem_append.mp hb with hold | hlast
      · exact Nat.lt_succ_of_lt (hafter b hold)
      · rw [List.mem_singleton.mp hlast]
        exact Nat.lt_succ_self _

theorem le_last (hcount : count < 2 ^ 31) {released : List Arrival} (h : Each Newest released)
    (hbound : ∀ a ∈ released, (a.seq - start).toNat < count) {c : Arrival}
    (hc : released.getLast? = some c) :
    ∀ b ∈ released, (b.seq - start).toNat ≤ (c.seq - start).toNat := by
  intro b hb
  obtain ⟨before, rfl⟩ := List.getLast?_eq_some_iff.mp hc
  rcases List.mem_append.mp hb with hold | hlast
  · have hprecedes := h before c [] rfl b hold
    have hbc := (precedes_iff hcount (hbound c (List.mem_append_right _ (List.mem_singleton.mpr rfl)))
      (hbound b hb)).mp hprecedes
    omega
  · rw [List.mem_singleton.mp hlast]

/-- A call goes forward unless it anchors the stream at a frame that is not the
newest. -/
theorem Inv.newest_call (h : p.Inv) (hcall : p.order.Call p.last arrival result)
    (hcount : count < 2 ^ 31) (hnewest : Each Newest p.released)
    (hbound : ∀ a ∈ p.released ++ result.1.frames, (a.seq - start).toNat < count) :
    Each Newest (p.released ++ result.1.frames) ↔
      ∀ a, some a = arrival → a.keyframe = true → p.order.next = none →
        Newest p.released a := by
  have hreleased : ∀ a ∈ p.released, (a.seq - start).toNat < count :=
    fun a ha => hbound a (List.mem_append_left _ ha)
  -- the newest frame released is the one before the frame wanted next
  have hwanted : ∀ n, p.order.next = some n → (n - start).toNat ≤ count ∧
      ∀ b ∈ p.released, (b.seq - start).toNat < (n - start).toNat := by
    intro n hn
    obtain ⟨-, l, hl, rfl⟩ := h.order.anchored n hn
    obtain ⟨c, hc, rfl⟩ := Option.map_eq_some_iff.mp hl
    have hcmem := List.mem_of_getLast? hc
    have hcbound := hreleased c hcmem
    rw [index_succ (by omega)]
    refine ⟨hcbound, ?_⟩
    intro b hb
    exact Nat.lt_succ_of_le (le_last hcount hnewest hreleased hc b hb)
  have hrelease := hcall.release
  generalize result.1.frames = new at hrelease hbound ⊢
  cases hrelease with
  | none hquiet =>
    rw [List.append_nil]
    refine ⟨?_, fun _ => hnewest⟩
    intro _ a ha hkey hnone
    rw [hquiet hnone a ha] at hkey
    cases hkey
  | onward n _ hn hnew =>
    refine ⟨?_, fun _ => newest_consecutive hcount hnewest hnew hbound (hwanted n hn).2⟩
    intro _ a ha hkey hnone
    rw [hn] at hnone
    cases hnone
  | skipped n a rest hn harrival hkey hahead hnew =>
    refine ⟨?_, fun _ => newest_consecutive hcount hnewest hnew hbound ?_⟩
    · intro _ b hb _ hnone
      rw [hn] at hnone
      cases hnone
    · -- a frame less than half the counter ahead of the one wanted is no older
      intro b hb
      obtain ⟨hle, hlt⟩ := hwanted n hn
      have ha := hbound a (List.mem_append_right _ List.mem_cons_self)
      have hb' := hlt b hb
      have hsub := UInt32.toNat_sub a.seq n
      have hsuba := UInt32.toNat_sub a.seq start
      have hsubn := UInt32.toNat_sub n start
      have hlta := a.seq.toNat_lt
      have hltn := n.toNat_lt
      have hlts := start.toNat_lt
      omega
  | anchored a rest hn harrival hkey hnew =>
    have ha := hbound a (List.mem_append_right _ List.mem_cons_self)
    constructor
    · intro hall b hb _ _
      rw [← harrival] at hb
      rw [Option.some.inj hb]
      exact hall p.released a rest rfl
    · intro hall
      refine newest_consecutive hcount hnewest hnew hbound ?_
      intro b hb
      exact (precedes_iff hcount ha (hreleased b hb)).mp (hall a harrival hkey hn b hb)

end Forward

theorem arrived_run {P : UInt32 → Prop} {events : List VideoEvent}
    (h : ∀ seq keyframe payload now, .accept seq keyframe payload now ∈ events → P seq) :
    ∀ a ∈ (run step new events).arrived, P a.seq := by
  induction events using List.reverseRecOn with
  | nil => nofun
  | append_singleton events e ih =>
    have hold := ih fun seq keyframe payload now hmem =>
      h seq keyframe payload now (List.mem_append_left _ hmem)
    rw [run_append]
    cases e with
    | accept seq keyframe payload now =>
      intro a ha
      rcases List.mem_append.mp ha with hmem | hlast
      · exact hold a hmem
      · rw [List.mem_singleton.mp hlast]
        exact h seq keyframe payload now (List.mem_append_right _ (List.mem_singleton.mpr rfl))
    | recover now => exact hold
    | decodeFailed now => exact hold

theorem step_call {p : Playback} (h : p.Inv) (e : VideoEvent) :
    ∃ arrival result, p.order.Call p.last arrival result ∧
      (p.step e).released = p.released ++ result.1.frames ∧
      ∀ P : Arrival → Prop, (∀ a, some a = arrival → P a) ↔
        ∀ seq keyframe payload now, e = .accept seq keyframe payload now →
          P (p.arrival seq keyframe payload) := by
  cases e with
  | accept seq keyframe payload now =>
    refine ⟨_, _, VideoOrder.acceptAt_call h.order (p.arrival seq keyframe payload) now, rfl, ?_⟩
    intro P
    constructor
    · intro hall seq' keyframe' payload' now' heq
      cases heq
      exact hall _ rfl
    · intro hall a ha
      rw [Option.some.inj ha]
      exact hall seq keyframe payload now rfl
  | recover now =>
    refine ⟨_, _, VideoOrder.recoverAt_call h.order now, rfl, ?_⟩
    intro P
    exact ⟨fun _ _ _ _ _ heq => (by cases heq), fun _ _ ha => (by cases ha)⟩
  | decodeFailed now =>
    refine ⟨_, _, VideoOrder.decodeFailed_call p.order p.last now, rfl, ?_⟩
    intro P
    exact ⟨fun _ _ _ _ _ heq => (by cases heq), fun _ _ ha => (by cases ha)⟩

/-- A keyframe that finds the buffer without an anchor is newer than everything
released before it. -/
def Onward (before : List VideoEvent) (e : VideoEvent) : Prop :=
  ∀ seq payload now, e = .accept seq true payload now →
    (run step new before).order.next = none →
      ∀ b ∈ (run step new before).released, Precedes b.seq seq

/-- **Never back in time**, if and only if every keyframe that anchors the stream
is newer than what was released before it. -/
theorem video_forward_iff (start : UInt32) (count : ℕ) (hcount : count < 2 ^ 31)
    (events : List VideoEvent)
    (hstream : ∀ seq keyframe payload now, .accept seq keyframe payload now ∈ events →
      (seq - start).toNat < count) :
    Each Newest (run step new events).released ↔ Each Onward events := by
  have hbound : ∀ a ∈ (run step new events).released, (a.seq - start).toNat < count := by
    intro a ha
    have hknown := (inv_run events).known a (.inr ha)
    exact arrived_run hstream a
      (List.mem_of_getElem? hknown)
  induction events using List.reverseRecOn with
  | nil => exact ⟨fun _ => each_nil _, fun _ => each_nil _⟩
  | append_singleton events e ih =>
    rw [run_append] at hbound ⊢
    obtain ⟨arrival, result, hcall, hreleased, harrival⟩ := step_call (inv_run events) e
    have hrun : (run step (run step new events) [e]).released =
        (run step new events).released ++ result.1.frames := hreleased
    rw [hrun] at hbound ⊢
    have hold := ih
      (fun seq keyframe payload now hmem =>
        hstream seq keyframe payload now (List.mem_append_left _ hmem))
      (fun a ha => hbound a (List.mem_append_left _ ha))
    rw [each_concat_iff]
    constructor
    · intro hall
      have hnewest : Each Newest (run step new events).released := by
        intro before a after heq
        exact hall before a (after ++ result.1.frames) (by rw [heq]; simp)
      refine ⟨hold.mp hnewest, ?_⟩
      have hcond := (harrival _).mp
        (((inv_run events).newest_call hcall hcount hnewest hbound).mp hall)
      intro seq payload now heq hnone b hb
      exact hcond seq true payload now heq rfl hnone b hb
    · rintro ⟨hbefore, honward⟩
      have hnewest := hold.mpr hbefore
      refine ((inv_run events).newest_call hcall hcount hnewest hbound).mpr ((harrival _).mpr ?_)
      intro seq keyframe payload now heq hkey hnone b hb
      have hkey' : keyframe = true := hkey
      rw [hkey'] at heq
      exact honward seq payload now heq hnone b hb

/-- Two keyframes, the first of which is overtaken and comes after a decoder error. -/
def sampleStraggler : List VideoEvent :=
  [.accept 1 true [] 0, .decodeFailed 0, .accept 0 true [] 0]

theorem straggler_rewinds :
    (∀ seq keyframe payload now, .accept seq keyframe payload now ∈ sampleStraggler →
        (seq - 0).toNat < 2) ∧
      ¬ Each Newest (run step new sampleStraggler).released := by
  constructor
  · intro seq keyframe payload now hmem
    simp only [sampleStraggler, List.mem_cons, VideoEvent.accept.injEq, List.not_mem_nil, or_false,
      reduceCtorEq, false_or] at hmem
    rcases hmem with ⟨rfl, -⟩ | ⟨rfl, -⟩
    · decide
    · decide
  · intro h
    have hreleased : (run step new sampleStraggler).released =
        [⟨0, 1, true, []⟩, ⟨1, 0, true, []⟩] := by decide +kernel
    rw [hreleased] at h
    have hprecedes := h [⟨0, 1, true, []⟩] ⟨1, 0, true, []⟩ [] rfl _ List.mem_cons_self
    exact absurd hprecedes.2 (by decide)

theorem video_forward_pair :
    Each Newest (run step new [.accept 5 true [] 0, .decodeFailed 0, .accept 6 true [] 0]).released
    := by
  refine (video_forward_iff 5 2 (by decide) _ ?_).mpr ?_
  · intro seq keyframe payload now hmem
    simp only [List.mem_cons, VideoEvent.accept.injEq, List.not_mem_nil, or_false,
      reduceCtorEq, false_or] at hmem
    rcases hmem with ⟨rfl, -⟩ | ⟨rfl, -⟩
    · decide
    · decide
  · have hnil : Each Onward [] := each_nil _
    have hone : Each Onward ([] ++ [VideoEvent.accept 5 true [] 0]) := by
      refine hnil.snoc ?_
      intro seq payload now heq _ b hb
      cases hb
    have htwo := hone.snoc (e := VideoEvent.decodeFailed 0) (by nofun)
    refine htwo.snoc ?_
    intro seq payload now heq _ b hb
    have hreleased : (run step new [VideoEvent.accept 5 true [] 0, .decodeFailed 0]).released =
        [⟨0, 5, true, []⟩] := by decide +kernel
    cases heq
    rw [show [] ++ [VideoEvent.accept 5 true [] 0] ++ [VideoEvent.decodeFailed 0] =
      [VideoEvent.accept 5 true [] 0, .decodeFailed 0] from rfl, hreleased] at hb
    rw [List.mem_singleton.mp hb]
    exact ⟨by decide, by decide⟩

end Playback

end NebulaDesk
