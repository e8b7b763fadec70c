/-
No hidden reference gap (`nebula-agent/src/platform/macos/capture.rs`,
`nebula-agent/src/platform/linux/capture.rs`, `nebula-agent/src/session.rs`).

A delta frame can be decoded after the frame that its encoder produced before
it.  Numbers are given at the very end, so whatever is lost on the way either
takes a number with it or must not be followed by a delta.  What is carried
through a run is that the frames of the current epoch that are still on their
way, behind the last one sent under the number before the next, form a chain;
and that a frame which will come out of the encoder next continues it.

The chain is repaired by asking for a keyframe.  On macOS the frames that are in
the encoder at that moment still come out as deltas, so the result is about the
runs in which a loss finds none.
-/
import NebulaDesk.Agent.PumpOrder

namespace NebulaDesk

open Runs

/-- The second frame can be decoded after the first. -/
def Coded.Follows (x y : Coded) : Prop :=
  y.keyframe = true ∨ (y.encoder = x.encoder ∧ y.id = x.id + 1)

instance (x y : Coded) : Decidable (x.Follows y) := inferInstanceAs (Decidable (_ ∨ _))

/-- The frame is the last one that the encoder produced. -/
def VideoSource.continues (v : VideoSource) (x : Coded) : Bool :=
  x.encoder = v.encoder && x.id + 1 = v.produced

namespace VideoPump

variable {p p' : VideoPump} {e : PumpEvent}

/-- The receiver sees the second frame right after the first, in one order: an
application client keeps its order when the path changes. -/
def Contiguous (p : VideoPump) (a b : SentFrame) : Prop :=
  b.number = a.number + 1 ∧ a.frame.stamp = b.frame.stamp ∧
    (p.application = true ∨ a.route = b.route)

def NoGap (p : VideoPump) : Prop :=
  ∀ a ∈ p.sent, ∀ b ∈ p.sent, p.Contiguous a b → a.frame.Follows b.frame

/-- The last frame sent, if the next one will look contiguous to it. -/
def anchor (p : VideoPump) : Option SentFrame :=
  p.sent.getLast?.filter fun a => a.number + 1 = p.number && (p.application || a.route = p.route)

/-- The anchor, and what is on its way behind it. -/
def flow (p : VideoPump) : List Coded :=
  (p.anchor.map (·.frame)).toList ++ (p.held.toList ++ p.queue)

/-- What of it belongs to the current epoch. -/
def live (p : VideoPump) : List Coded := p.flow.filter p.isLive

/-- The last live frame is not the encoder's last, nothing is held back and nothing
is in the encoder: the next frame to enter it has to be forced. -/
def owes (p : VideoPump) : Bool :=
  p.live.getLast?.any fun x =>
    !p.source.continues x && !p.source.broken && p.source.pending.isEmpty

def nextForced (pending : List Submitted) : Bool := pending.head?.all (·.forced)

/-- The first of these frames, or what the encoder sends after them, is no delta. -/
def leads (v : VideoSource) : List Coded → Bool
  | [] => v.broken || nextForced v.pending
  | x :: _ => x.keyframe

/-- Flushing so many frames leaves behind the anchor what can follow it. -/
def flushes (p : VideoPump) (count : ℕ) : Bool :=
  let dropped := (p.held.toList ++ p.queue.take count).filter p.isLive
  match ({ p with sending := none } : VideoPump).anchor with
  | none => true
  | some a =>
    !p.isLive a.frame || dropped.isEmpty || leads p.source ((p.queue.drop count).filter p.isLive)

/-- A step that loses no frame which one behind it still depends on: no image
enters the encoder between a flush and its keyframe request, and what is dropped
is not followed by a delta that has been encoded already. -/
def clean (p : VideoPump) : PumpEvent → Bool
  | .submit _ _ => !(p.asking && p.owes)
  | .enter => !((p.asking || p.source.requested) && p.owes)
  | .output _ empty full =>
    !(p.source.kind = .mac && !empty && full && !p.live.isEmpty) || nextForced p.source.pending.tail
  | .pathChange count => p.flushes count
  | _ => true

def stepWithin (p : VideoPump) (e : PumpEvent) : Option VideoPump :=
  if p.clean e then p.step e else none

/-! ### What the source owes to the last live frame -/

/-- The next frame out of the encoder that is not held back continues this one,
and as long as it is not in the encoder, a keyframe is asked for. -/
structure Repair (current : ℕ → Bool) (asking : Bool) (v : VideoSource) (x : Coded) : Prop where
  pending : ∀ s ∈ v.pending, current s.stamp = true
  ready : v.continues x = true ∨ v.broken = true ∨ nextForced v.pending = true
  asked : v.continues x = false → v.broken = false → v.pending = [] → asking = false →
    v.requested = true ∨ v.forceKey = true

section Repair

variable {current : ℕ → Bool} {asking : Bool} {v w : VideoSource} {x : Coded}

theorem continues_congr (hencoder : w.encoder = v.encoder) (hproduced : w.produced = v.produced) :
    w.continues x = v.continues x := by
  unfold VideoSource.continues
  rw [hencoder, hproduced]

theorem Repair.of_flags (h : Repair current asking v x) (hpending : w.pending = v.pending)
    (hencoder : w.encoder = v.encoder) (hproduced : w.produced = v.produced)
    (hbroken : w.broken = v.broken)
    (hflags : v.requested = true ∨ v.forceKey = true → w.requested = true ∨ w.forceKey = true) :
    Repair current asking w x where
  pending := hpending ▸ h.pending
  ready := by
    rw [continues_congr hencoder hproduced, hbroken, hpending]
    exact h.ready
  asked := by
    rw [continues_congr hencoder hproduced, hbroken, hpending]
    intro hc hb hp ha
    exact hflags (h.asked hc hb hp ha)

theorem Repair.enters (h : Repair current asking v x) {s : Submitted}
    (hpending : w.pending = v.pending ++ [s]) (hencoder : w.encoder = v.encoder)
    (hproduced : w.produced = v.produced) (hbroken : w.broken = v.broken)
    (hcurrent : current s.stamp = true)
    (hforced : v.continues x = false → v.broken = false → v.pending = [] → s.forced = true) :
    Repair current asking w x where
  pending := by
    rw [hpending]
    intro t ht
    rw [List.mem_append, List.mem_singleton] at ht
    obtain ht | rfl := ht
    · exact h.pending t ht
    · exact hcurrent
  ready := by
    rw [continues_congr hencoder hproduced, hbroken, hpending]
    cases hc : v.continues x
    · cases hb : v.broken
      · right; right
        cases hv : v.pending with
        | nil =>
          have := hforced hc hb hv
          simpa [nextForced] using this
        | cons t ts =>
          obtain hc' | hb' | hn := h.ready
          · rw [hc] at hc'; cases hc'
          · rw [hb] at hb'; cases hb'
          · rw [hv] at hn
            exact hn
      · exact .inr (.inl rfl)
    · exact .inl rfl
  asked := by
    rw [hpending]
    intro _ _ hp
    simp at hp

theorem Repair.replaced (v : VideoSource) (x : Coded) : Repair current asking v.replace x where
  pending := nofun
  ready := .inr (.inr rfl)
  asked := fun _ _ _ _ => .inr rfl

theorem Repair.empty (h : Repair current asking v x) {first : Submitted} {rest : List Submitted}
    (hv : v.pending = first :: rest) (hfirst : first.forced = false) :
    Repair current asking { v with pending := rest } x where
  pending := by
    intro s hs
    exact h.pending s (by rw [hv]; exact List.mem_cons_of_mem _ hs)
  ready := by
    obtain hc | hb | hn := h.ready
    · exact .inl hc
    · exact .inr (.inl hb)
    · rw [hv] at hn
      simp [nextForced, hfirst] at hn
  asked := by
    intro hc hb
    exfalso
    obtain hc' | hb' | hn := h.ready
    · exact Bool.false_ne_true (hc.symm.trans hc')
    · exact Bool.false_ne_true (hb.symm.trans hb')
    · rw [hv] at hn
      simp [nextForced, hfirst] at hn

end Repair

/-! ### The chain -/

structure Linked (p : VideoPump) : Prop where
  noGap : p.NoGap
  -- a send that has been taken begins even when its epoch has passed
  link : ∀ a x, p.anchor = some a → p.held = some x → a.frame.stamp = x.stamp → a.frame.Follows x
  chain : p.live.IsChain Coded.Follows
  repair : ∀ x, p.live.getLast? = some x → Repair p.current p.asking p.source x

theorem linked_start (application : Bool) (kind : SourceKind) :
    (start application kind).Linked where
  noGap := nofun
  link := nofun
  chain := .nil
  repair := nofun

theorem getLast?_of_suffix {α : Type*} {xs ys : List α} {x : α} (h : xs <:+ ys)
    (hx : xs.getLast? = some x) : ys.getLast? = some x := by
  obtain ⟨zs, rfl⟩ := h
  rw [List.getLast?_append, hx]
  rfl

theorem Linked.of_source (h : p.Linked) {v : VideoSource} {asking : Bool}
    (hrepair : ∀ x, p.live.getLast? = some x → Repair p.current p.asking p.source x →
      Repair p.current asking v x) :
    ({ p with source := v, asking := asking } : VideoPump).Linked where
  __ := h
  repair := fun x hx => hrepair x hx (h.repair x hx)

/-- A step of the session: frames leave the front of what is live. -/
theorem Linked.of_suffix (h : p.Linked) (hsource : p'.source = p.source)
    (hasking : p'.asking = false → p.asking = false) (hstamp : p'.stamp = p.stamp)
    (hsuffix : p'.live <:+ p.live) (hgap : p'.NoGap)
    (hlink : ∀ a x, p'.anchor = some a → p'.held = some x → a.frame.stamp = x.stamp →
      a.frame.Follows x) : p'.Linked where
  noGap := hgap
  link := hlink
  chain := h.chain.suffix hsuffix
  repair := by
    intro x hx
    have hold := h.repair x (getLast?_of_suffix hsuffix hx)
    have hcurrent : p'.current = p.current := by
      unfold current
      rw [hstamp]
    rw [hcurrent, hsource]
    exact { hold with asked := fun hc hb hp ha => hold.asked hc hb hp (hasking ha) }

theorem current_eq {stamp : ℕ} (h : p.current stamp = true) : stamp = p.stamp :=
  of_decide_eq_true (Bool.and_eq_true_iff.mp h).1

theorem anchor_mem {a : SentFrame} (h : p.anchor = some a) : p.sent.getLast? = some a ∧
    a.number + 1 = p.number ∧ (p.application = true ∨ a.route = p.route) := by
  obtain ⟨hlast, hcounts⟩ := Option.filter_eq_some_iff.mp h
  obtain ⟨hnumber, hroute⟩ := Bool.and_eq_true_iff.mp hcounts
  refine ⟨hlast, of_decide_eq_true hnumber, ?_⟩
  exact (Bool.or_eq_true_iff.mp hroute).imp id of_decide_eq_true

theorem live_append (p : VideoPump) : p.live =
    (p.anchor.map (·.frame)).toList.filter p.isLive ++
      (p.held.toList.filter p.isLive ++
        p.queue.filter p.isLive) := by
  unfold live flow
  rw [List.filter_append, List.filter_append]

theorem live_suffix (p : VideoPump) : p.held.toList.filter p.isLive ++
    p.queue.filter p.isLive <:+ p.live := by
  rw [live_append]
  exact List.suffix_append _ _

theorem queue_suffix (p : VideoPump) : p.queue.filter p.isLive <:+ p.live :=
  (List.suffix_append _ _).trans (live_suffix p)

/-- The session drops the send, and frames from the front of the queue. -/
abbrev unsent (p : VideoPump) (queue : List Coded) (asking : Bool) : VideoPump :=
  { p with sending := none, queue := queue, asking := asking }

theorem live_unsent (p : VideoPump) (queue : List Coded) (asking : Bool) :
    (p.unsent queue asking).live =
      ((p.unsent queue asking).anchor.map (·.frame)).toList.filter p.isLive ++
        queue.filter p.isLive := live_append _

theorem anchor_unsent (h : p.Ordered) (queue : List Coded) (asking : Bool) :
    (p.unsent queue asking).anchor = none ∨
      (p.number = p.next ∧ (p.unsent queue asking).anchor = p.anchor) := by
  by_cases hnumber : p.number = p.next
  · right
    refine ⟨hnumber, ?_⟩
    unfold anchor
    rw [hnumber]
    rfl
  · left
    cases ha : (p.unsent queue asking).anchor with
    | none => rfl
    | some a =>
      obtain ⟨hlast, hnext, -⟩ := anchor_mem ha
      have hnext : a.number + 1 = p.next := hnext
      have hbelow := h.below a (List.mem_of_getLast? hlast)
      have hle := number_le_next h
      omega

theorem held_eq_none (h : p.Ordered) (happ : p.application = true) (hnumber : p.number = p.next) :
    p.held = none := by
  unfold held
  split
  · rename_i frame number hsending
    obtain ⟨-, -, hnext⟩ | ⟨hdesktop, -⟩ := h.numbered _ _ hsending
    · omega
    · rw [happ] at hdesktop
      cases hdesktop
  · rfl

/-! ### Each step keeps it -/

theorem noGap_poll (h : p.Ordered) (hl : p.Linked) {frame : Coded} (hheld : p.held = some frame)
    {q : VideoPump} (happ : q.application = p.application)
    (hsent : q.sent = p.sent ++ [⟨p.number, p.route, frame⟩]) : q.NoGap := by
  intro a ha b hb hcontiguous
  obtain ⟨hnumber, hstamp, hroute⟩ := hcontiguous
  rw [hsent, List.mem_append, List.mem_singleton] at ha hb
  rw [happ] at hroute
  obtain ha | rfl := ha
  · obtain hb | rfl := hb
    · exact hl.noGap a ha b hb ⟨hnumber, hstamp, hroute⟩
    · -- nothing was sent after a number that is one below the next
      have hlast : p.sent.getLast? = some a := by
        obtain ⟨front, last, hfront⟩ : ∃ front last, p.sent = front ++ [last] :=
          ⟨_, _, (List.dropLast_append_getLast (List.ne_nil_of_mem ha)).symm⟩
        have hincreasing := h.increasing
        rw [hfront] at ha hincreasing ⊢
        rw [List.mem_append, List.mem_singleton] at ha
        obtain ha | rfl := ha
        · have hmem : last ∈ [last] := List.mem_singleton.mpr rfl
          have hlt := (List.pairwise_append.mp hincreasing).2.2 a ha last hmem
          have hbelow := h.below last (by rw [hfront]; exact List.mem_append_right _ hmem)
          have hnumber : p.number = a.number + 1 := hnumber
          omega
        · exact List.getLast?_concat
      have hanchor : p.anchor = some a := by
        refine Option.filter_eq_some_iff.mpr ⟨hlast, ?_⟩
        rw [Bool.and_eq_true_iff, Bool.or_eq_true_iff]
        exact ⟨decide_eq_true hnumber.symm, hroute.imp id decide_eq_true⟩
      exact hl.link a frame hanchor hheld hstamp
  · obtain hb | rfl := hb
    · have hbelow := h.below b hb
      have hnumber : b.number = p.number + 1 := hnumber
      omega
    · have hnumber : p.number = p.number + 1 := hnumber
      omega

theorem linked_step_poll (h : p.Ordered) (hl : p.Linked) (hs : p.step .poll = some p') :
    p'.Linked := by
  rw [step] at hs
  split at hs
  · rename_i frame number hsending
    cases hs
    obtain ⟨hnumber, -, hnext⟩ := h.poll hsending
    have hheld : p.held = some frame := by rw [held, hsending]
    rw [hnumber, hnext]
    have hanchor : ({ p with
        sending := some .started
        sent := p.sent ++ [⟨p.number, p.route, frame⟩]
        next := p.number + 1 } : VideoPump).anchor = some ⟨p.number, p.route, frame⟩ := by
      refine Option.filter_eq_some_iff.mpr ⟨List.getLast?_concat, ?_⟩
      rw [Bool.and_eq_true_iff, Bool.or_eq_true_iff]
      exact ⟨decide_eq_true rfl, .inr (decide_eq_true rfl)⟩
    refine hl.of_suffix rfl id rfl ?_ (noGap_poll h hl hheld rfl rfl)
      fun _ _ _ hd => by cases hd
    -- the frame that was held is the anchor now
    have hlive := live_suffix p
    rw [hheld] at hlive
    rw [live_append, hanchor]
    exact hlive
  · cases hs

theorem linked_step_take {refused : Bool} (h : p.Ordered) (hl : p.Linked)
    (hs : p.step (.take refused) = some p') : p'.Linked := by
  obtain ⟨hsending, frame, rest, hqueue, htake⟩ := step_take hs
  have hheld : p.held = none := by rw [held, hsending]
  have hlive := live_append p
  rw [hheld, hqueue] at hlive
  obtain ⟨hstale, rfl⟩ | ⟨hheard, hcurrent, rfl⟩ | ⟨hcurrent, rfl⟩ := htake
  · refine hl.of_suffix rfl id rfl ?_ hl.noGap hl.link
    rw [hlive, List.filter_cons_of_neg (by rw [hstale]; exact Bool.false_ne_true)]
    rw [live_append]
    show _ ++ (p.held.toList.filter _ ++ _) <:+ _
    rw [hheld]
    exact List.suffix_rfl
  · -- no frame of this epoch has been taken, so the anchor is from an earlier one
    refine hl.of_suffix rfl id rfl ?_ hl.noGap hl.link
    have hanchor : (p.anchor.map (·.frame)).toList.filter p.isLive = [] := by
      rw [List.filter_eq_nil_iff]
      intro x hx hnow
      obtain ⟨a, ha, rfl⟩ := Option.map_eq_some_iff.mp (Option.mem_toList.mp hx)
      have hle := h.taken a.frame (.inr ⟨a, List.mem_of_getLast? (anchor_mem ha).1, rfl⟩)
      have heq := current_eq hnow
      have hbound := h.heardLe
      omega
    rw [hlive, hanchor, List.filter_cons_of_pos hcurrent, live_append]
    show (p.anchor.map (·.frame)).toList.filter p.isLive ++
      (p.held.toList.filter _ ++ rest.filter p.isLive) <:+ _
    rw [hheld, hanchor]
    exact List.suffix_cons _ _
  · -- the first of the queue is held instead
    have hnumber : p.number = p.next := number_of_held_eq_none hheld
    have hgiven : ({ p with
        queue := rest
        sending := some (.waiting frame (if p.application then some p.next else none))
        next := if p.application then p.next + 1 else p.next
        heard := p.stamp } : VideoPump).anchor = p.anchor := by
      unfold anchor
      rw [hnumber]
      cases happ : p.application <;> rfl
    refine hl.of_suffix rfl id rfl ?_ hl.noGap ?_
    · rw [hlive, List.filter_cons_of_pos hcurrent, live_append, hgiven]
      show _ ++ ([frame].filter p.isLive ++ _) <:+ _
      rw [List.filter_cons_of_pos hcurrent]
      exact List.suffix_rfl
    · intro a x ha hx hstamp
      cases hx
      rw [hgiven] at ha
      have hnow : p.isLive a.frame = true := by
        rw [isLive, hstamp]
        exact hcurrent
      have hchain := hl.chain
      rw [hlive, ha, List.filter_cons_of_pos hcurrent] at hchain
      change ([a.frame].filter p.isLive ++ _).IsChain _ at hchain
      rw [List.filter_cons_of_pos hnow] at hchain
      exact (List.isChain_cons_cons.mp hchain).1

theorem linked_enqueue (h : p.Ordered) (hl : p.Linked) {first : Submitted} {rest : List Submitted}
    {keyframe : Bool} (hpending : p.source.pending = first :: rest)
    (hforced : first.forced = true → keyframe = true ∧ false = false)
    (hkept : p.source.broken = true → keyframe = true) (hcurrent : p.current first.stamp = true) :
    ({ p with
      source := { p.popped rest with broken := p.source.broken && !keyframe }
      queue := p.queue ++
        [⟨p.source.encoder, p.source.produced, keyframe, first.stamp⟩] } : VideoPump).Linked := by
  set frame : Coded := ⟨p.source.encoder, p.source.produced, keyframe, first.stamp⟩ with hframe
  set q : VideoPump := { p with
    source := { p.popped rest with broken := p.source.broken && !keyframe }
    queue := p.queue ++ [frame] } with hq
  have hnow : p.isLive frame = true := hcurrent
  have hlive : q.live = p.live ++ [frame] := by
    rw [live_append, live_append]
    show _ ++ (_ ++ (p.queue ++ [frame]).filter p.isLive) = _
    rw [List.filter_append, List.filter_cons_of_pos hnow, ← List.append_assoc, ← List.append_assoc,
      ← List.append_assoc]
    rfl
  refine ⟨hl.noGap, hl.link, ?_, ?_⟩
  · rw [hlive, List.isChain_append]
    refine ⟨hl.chain, .singleton _, ?_⟩
    intro x hx y hy
    cases hy
    obtain hc | hb | hn := (hl.repair x hx).ready
    · right
      obtain ⟨hencoder, hid⟩ := Bool.and_eq_true_iff.mp hc
      exact ⟨(of_decide_eq_true hencoder).symm, (of_decide_eq_true hid).symm⟩
    · exact .inl (hkept hb)
    · rw [hpending] at hn
      exact .inl (hforced hn).1
  · intro x hx
    rw [hlive, List.getLast?_concat] at hx
    cases hx
    have hcontinues : q.source.continues frame = true := by
      rw [VideoSource.continues, Bool.and_eq_true_iff]
      exact ⟨decide_eq_true rfl, decide_eq_true rfl⟩
    refine ⟨?_, .inl hcontinues, ?_⟩
    · -- the encoder keeps the order, and nothing in it is from a later epoch
      intro s hs
      have hsorted := h.sorted
      rw [hpending] at hsorted
      have hge := (List.pairwise_cons.mp hsorted).1 s hs
      have hle := h.pendingLe s (by rw [hpending]; exact List.mem_cons_of_mem _ hs)
      have heq := current_eq hcurrent
      have hstamp : s.stamp = first.stamp := by omega
      rw [hstamp]
      exact hcurrent
    · intro hc
      rw [hcontinues] at hc
      cases hc

theorem linked_flush {count : ℕ} (hl : p.Linked)
    (hclean : p.clean (.pathChange count) = true) {a : SentFrame}
    (hsame : (p.unsent (p.queue.drop count) true).anchor = p.anchor) (ha : p.anchor = some a)
    (hnow : p.isLive a.frame = true) : (p.unsent (p.queue.drop count) true).Linked := by
  set rest := (p.queue.drop count).filter p.isLive with hrest
  set dropped := (p.held.toList ++ p.queue.take count).filter p.isLive with hdropped
  have hbefore : p.live = a.frame :: (dropped ++ rest) := by
    rw [live_append, ha, hdropped, hrest, List.filter_append, List.append_assoc,
      ← List.filter_append (p.queue.take count), List.take_append_drop]
    show [a.frame].filter p.isLive ++ _ = _
    rw [List.filter_cons_of_pos hnow]
    rfl
  have hafter : (p.unsent (p.queue.drop count) true).live = a.frame :: rest := by
    rw [live_unsent, hsame, ha]
    show [a.frame].filter p.isLive ++ _ = _
    rw [List.filter_cons_of_pos hnow]
    rfl
  have hflush : dropped = [] ∨ leads p.source rest = true := by
    change p.flushes count = true at hclean
    have hanchor : ({ p with sending := none } : VideoPump).anchor = some a := hsame.trans ha
    rw [flushes, hanchor] at hclean
    simp only [hnow, Bool.not_true, Bool.false_or, Bool.or_eq_true, List.isEmpty_iff] at hclean
    exact hclean
  obtain hnil | hbehind := hflush
  · refine hl.of_suffix rfl nofun rfl ?_ hl.noGap nofun
    rw [hafter, hbefore, hnil]
    exact List.suffix_rfl
  have hrepair : ∀ x, (dropped ++ rest).getLast? = some x → Repair p.current p.asking p.source x := by
    intro x hx
    refine hl.repair x ?_
    rw [hbefore]
    exact getLast?_of_suffix (List.suffix_cons _ _) hx
  have hchain := hl.chain
  rw [hbefore] at hchain
  have hpending : ∀ s ∈ p.source.pending, p.current s.stamp = true := by
    obtain ⟨x, hx⟩ : ∃ x, p.live.getLast? = some x := by
      rw [hbefore]
      exact ⟨_, List.getLast?_eq_getLast_of_ne_nil (List.cons_ne_nil _ _)⟩
    exact (hl.repair x hx).pending
  cases hr : rest with
  | nil =>
    rw [hr] at hbehind hafter
    refine ⟨hl.noGap, nofun, ?_, ?_⟩
    · rw [hafter]
      exact .singleton _
    · intro x hx
      rw [hafter] at hx
      refine ⟨hpending, .inr ?_, ?_⟩
      · exact (Bool.or_eq_true_iff.mp hbehind)
      · intro _ _ _ hasking
        cases hasking
  | cons y ys =>
    rw [hr] at hbehind hafter hrepair hchain
    refine ⟨hl.noGap, nofun, ?_, ?_⟩
    · rw [hafter]
      refine List.isChain_cons_cons.mpr ⟨.inl hbehind, ?_⟩
      exact hchain.suffix ((List.suffix_append _ _).trans (List.suffix_cons _ _))
    · intro x hx
      rw [hafter, List.getLast?_cons_cons] at hx
      have hold := hrepair x (getLast?_of_suffix (List.suffix_append _ _) hx)
      exact { hold with asked := fun _ _ _ hasking => by cases hasking }

theorem linked_step_output {keyframe empty full : Bool} (h : p.Ordered) (hl : p.Linked)
    (hclean : p.clean (.output keyframe empty full) = true)
    (hs : p.step (.output keyframe empty full) = some p') : p'.Linked := by
  obtain ⟨first, rest, hpending, hforced, hout⟩ := step_output hs
  have hrest : ∀ s ∈ rest, s ∈ p.source.pending := by
    intro s hs
    rw [hpending]
    exact List.mem_cons_of_mem _ hs
  obtain ⟨rfl, rfl⟩ | ⟨rfl, hbroken, rfl⟩ | ⟨rfl, hkept, hcurrent, rfl⟩ | ⟨rfl, hlost, rfl⟩ := hout
  · refine hl.of_source fun x _ hr => hr.empty hpending ?_
    cases hf : first.forced
    · rfl
    · cases (hforced hf).2
  · -- held back, as everything is until a keyframe gets through
    refine hl.of_source fun x _ hr => ⟨fun s hs => hr.pending s (hrest s hs), .inr (.inl hbroken), ?_⟩
    intro _ hb
    rw [show (p.popped rest).broken = true from hbroken] at hb
    cases hb
  · exact linked_enqueue h hl hpending hforced hkept hcurrent
  · refine hl.of_source fun x hx hr => ⟨fun s hs => hr.pending s (hrest s hs), ?_, ?_⟩
    · -- what is in the encoder behind a live frame is current, so the queue was full
      have hfull : full = true := by
        obtain hstale | hfull := hlost
        · have hnow := hr.pending first (by rw [hpending]; exact List.mem_cons_self)
          rw [hstale] at hnow
          cases hnow
        · exact hfull
      right
      cases hkind : p.source.kind
      · right
        have hlive : p.live.isEmpty = false := by
          cases hnil : p.live
          · rw [hnil] at hx
            cases hx
          · rfl
        rw [clean, hfull, hkind, hlive, hpending] at hclean
        exact hclean
      · exact .inl rfl
    · intro _ _ _ _
      exact .inl rfl

theorem linked_step_stale {index : ℕ} (hl : p.Linked) (hs : p.step (.stale index) = some p') :
    p'.Linked := by
  rw [step] at hs
  split at hs
  · cases hs
  · rename_i frame hframe
    obtain ⟨hstale, rfl⟩ := Runs.some_of_guard hs
    have hstale : p.isLive frame = false := by
      have := (Bool.and_eq_true_iff.mp hstale).2
      rwa [Bool.not_eq_true'] at this
    refine hl.of_suffix rfl id rfl ?_ hl.noGap hl.link
    have hfilter : (p.queue.eraseIdx index).filter p.isLive = p.queue.filter p.isLive := by
      obtain ⟨hlt, hget⟩ := List.getElem?_eq_some_iff.mp hframe
      rw [List.eraseIdx_eq_take_drop_succ, List.filter_append]
      nth_rewrite 3 [← List.take_append_drop index p.queue]
      rw [List.filter_append, List.drop_eq_getElem_cons hlt, hget,
        List.filter_cons_of_neg (by rw [hstale]; exact Bool.false_ne_true)]
    rw [live_append, live_append]
    show _ ++ (_ ++ (p.queue.eraseIdx index).filter p.isLive) <:+ _
    rw [hfilter]
    exact List.suffix_rfl

theorem linked_step_switch (h : p.Ordered) (hl : p.Linked) (hs : p.step .switch = some p') :
    p'.Linked := by
  cases hs
  have hanchor : ({ p with route := p.route + 1 } : VideoPump).anchor = none ∨
      ({ p with route := p.route + 1 } : VideoPump).anchor = p.anchor := by
    cases ha : ({ p with route := p.route + 1 } : VideoPump).anchor with
    | none => exact .inl rfl
    | some a =>
      right
      obtain ⟨hlast, hnumber, happ | hroute⟩ := anchor_mem ha
      · have happ : p.application = true := happ
        symm
        refine Option.filter_eq_some_iff.mpr ⟨hlast, ?_⟩
        rw [Bool.and_eq_true_iff, Bool.or_eq_true_iff]
        exact ⟨decide_eq_true hnumber, .inl happ⟩
      · -- no frame was sent on a route that is still to come
        have hle := h.routes a (List.mem_of_getLast? hlast)
        have hroute : a.route = p.route + 1 := hroute
        omega
  obtain hnone | hsame := hanchor
  · refine hl.of_suffix rfl id rfl ?_ hl.noGap ?_
    · rw [live_append, hnone]
      exact live_suffix p
    · intro a x ha
      rw [hnone] at ha
      cases ha
  · refine hl.of_suffix rfl id rfl ?_ hl.noGap ?_
    · rw [live_append, live_append, hsame]
      exact List.suffix_rfl
    · rw [hsame]
      exact hl.link

theorem linked_unsent (h : p.Ordered) (hl : p.Linked)
    (hheld : p.number = p.next → p.held = none) : (p.unsent p.queue p.asking).Linked := by
  refine hl.of_suffix rfl id rfl ?_ hl.noGap nofun
  rw [live_unsent]
  obtain hnone | ⟨hnumber, hsame⟩ := anchor_unsent h p.queue p.asking
  · rw [hnone]
    exact queue_suffix p
  · rw [hsame, live_append, hheld hnumber]
    exact List.suffix_rfl

theorem linked_step_pathChange {count : ℕ} (h : p.Ordered) (hl : p.Linked)
    (hclean : p.clean (.pathChange count) = true) :
    (p.unsent (p.queue.drop count) true).Linked := by
  have hdrop : (p.queue.drop count).filter p.isLive <:+ p.live :=
    ((List.drop_suffix count p.queue).filter p.isLive).trans (queue_suffix p)
  obtain hnone | ⟨hnumber, hsame⟩ := anchor_unsent h (p.queue.drop count) true
  · refine hl.of_suffix rfl nofun rfl ?_ hl.noGap nofun
    rw [live_unsent, hnone]
    exact hdrop
  cases ha : p.anchor with
  | none =>
    refine hl.of_suffix rfl nofun rfl ?_ hl.noGap nofun
    rw [live_unsent, hsame, ha]
    exact hdrop
  | some a =>
    cases hnow : p.isLive a.frame
    · refine hl.of_suffix rfl nofun rfl ?_ hl.noGap nofun
      rw [live_unsent, hsame, ha]
      show [a.frame].filter p.isLive ++ _ <:+ _
      rw [List.filter_cons_of_neg (by rw [hnow]; exact Bool.false_ne_true)]
      exact hdrop
    · exact linked_flush hl hclean hsame ha hnow

/-- A later epoch: whatever is on its way belongs to an earlier one. -/
theorem Linked.of_stamp (h : p.Ordered) (hl : p.Linked) {v : VideoSource} {stamp : ℕ}
    (hlt : p.stamp < stamp) : ({ p with source := v, stamp := stamp } : VideoPump).Linked := by
  have hlive : ({ p with source := v, stamp := stamp } : VideoPump).live = [] := by
    unfold live
    rw [List.filter_eq_nil_iff]
    intro x hx hnow
    have hstamp : x.stamp = stamp := current_eq hnow
    have hle : x.stamp ≤ p.stamp := by
      unfold flow at hx
      rw [List.mem_append, List.mem_append, Option.mem_toList, Option.mem_toList] at hx
      obtain hx | hx | hx := hx
      · obtain ⟨a, ha, rfl⟩ := Option.map_eq_some_iff.mp hx
        have hmem : a ∈ p.sent := List.mem_of_getLast? (anchor_mem ha).1
        exact (h.taken a.frame (.inr ⟨a, hmem, rfl⟩)).trans h.heardLe
      · exact (h.taken x (.inl hx)).trans h.heardLe
      · exact h.queued x hx
    omega
  exact {
    noGap := hl.noGap
    link := hl.link
    chain := by
      rw [hlive]
      exact .nil
    repair := by
      rw [hlive]
      nofun }

theorem linked_step_enter (hl : p.Linked) (hclean : p.clean .enter = true)
    (hs : p.step .enter = some p') : p'.Linked := by
  rw [step] at hs
  obtain ⟨hcan, rfl⟩ := Runs.some_of_guard hs
  refine hl.of_source fun x hx hr => hr.enters rfl rfl rfl rfl (Bool.and_eq_true_iff.mp hcan).2 ?_
  intro hc hb hp
  have howes : p.owes = true := by
    rw [owes, hx]
    simp [hc, hb, hp]
  rw [clean, howes, Bool.and_true, Bool.not_eq_true', Bool.or_eq_false_iff] at hclean
  obtain ⟨hasking, hrequested⟩ := hclean
  obtain hreq | hkey := hr.asked hc hb hp hasking
  · rw [hrequested] at hreq
    cases hreq
  · exact hkey

theorem linked_step_submit {image : Option ℕ} {rejected : Bool} (hl : p.Linked)
    (hclean : p.clean (.submit image rejected) = true)
    (hs : p.step (.submit image rejected) = some p') : p'.Linked := by
  rw [step] at hs
  obtain ⟨-, rfl⟩ := Runs.some_of_guard hs
  obtain ⟨v, hv, hpending, hencoder, hproduced, hbroken, hflags⟩ |
    ⟨v, hv, hpending, hencoder, hproduced, hbroken, hcurrent⟩ := submit_cases image rejected
  · rw [hv]
    exact hl.of_source fun x _ hr => hr.of_flags hpending hencoder hproduced hbroken hflags
  · rw [hv]
    refine hl.of_source fun x hx hr =>
      hr.enters hpending hencoder hproduced hbroken hcurrent ?_
    intro hc hb hp
    have howes : p.owes = true := by
      rw [owes, hx]
      simp [hc, hb, hp]
    rw [clean, howes, Bool.and_true, Bool.not_eq_true'] at hclean
    rw [Bool.or_eq_true_iff]
    exact hr.asked hc hb hp hclean

theorem linked_step (h : p.Ordered) (hl : p.Linked) (hs : p.stepWithin e = some p') :
    p'.Linked := by
  rw [stepWithin] at hs
  split at hs
  swap
  · cases hs
  rename_i hclean
  cases e with
  | submit image rejected => exact linked_step_submit hl hclean hs
  | replace =>
    rw [step] at hs
    obtain ⟨-, rfl⟩ := Runs.some_of_guard hs
    exact hl.of_source fun x _ _ => .replaced p.source x
  | signal =>
    rw [step] at hs
    obtain ⟨-, rfl⟩ := Runs.some_of_guard hs
    refine hl.of_source fun x _ hr => ?_
    unfold VideoSource.signal
    split
    · exact hr.of_flags rfl rfl rfl rfl fun _ => .inr rfl
    · exact hr
  | enter => exact linked_step_enter hl hclean hs
  | output keyframe empty full => exact linked_step_output h hl hclean hs
  | take refused => exact linked_step_take h hl hs
  | poll => exact linked_step_poll h hl hs
  | finish =>
    rw [step] at hs
    obtain ⟨hstarted, rfl⟩ := Runs.some_of_guard hs
    exact linked_unsent h hl fun _ => by rw [held, hstarted]
  | cancel =>
    rw [step] at hs
    obtain ⟨happ, rfl⟩ := Runs.some_of_guard hs
    exact linked_unsent h hl (held_eq_none h happ)
  | stale index => exact linked_step_stale hl hs
  | switch => exact linked_step_switch h hl hs
  | pathChange count =>
    rw [step] at hs
    obtain ⟨-, rfl⟩ := Runs.some_of_guard hs
    exact linked_step_pathChange h hl hclean
  | request =>
    cases hs
    exact hl.of_source fun x _ hr => ⟨hr.pending, hr.ready, fun _ _ _ _ => .inl rfl⟩
  | transition stamp | restart stamp =>
    rw [step] at hs
    obtain ⟨hlt, rfl⟩ := Runs.some_of_guard hs
    exact .of_stamp h hl (of_decide_eq_true (Bool.and_eq_true_iff.mp hlt).2)

/-! ### Every run -/

theorem ordered_stepWithin (h : p.Ordered) (hs : p.stepWithin e = some p') : p'.Ordered := by
  rw [stepWithin] at hs
  split at hs
  · exact ordered_step h hs
  · cases hs

/-- **No hidden reference gap**: in a run whose losses are clean, a frame that the
receiver sees right after another can be decoded after it. -/
theorem reference_chain (application : Bool) (kind : SourceKind)
    (hr : Reach stepWithin (start application kind) p) : p.NoGap := by
  have hboth : p.Ordered ∧ p.Linked :=
    hr.invariant (P := fun p => p.Ordered ∧ p.Linked)
      ⟨ordered_start application kind, linked_start application kind⟩
      fun _ _ _ hi hs => ⟨ordered_stepWithin hi.1 hs, linked_step hi.1 hi.2 hs⟩
  exact hboth.2.noGap

/-- The queue is full, and the request that follows finds the encoder empty. -/
def repairedLoss : List PumpEvent :=
  [.submit (some 1) false, .output true false false, .take false, .poll,
    .submit (some 1) false, .output false false false, .submit (some 1) false,
    .output false false false, .submit (some 1) false, .output false false false,
    .submit (some 1) false, .output false false true, .finish, .take false, .poll, .finish,
    .take false, .poll, .finish, .take false, .poll, .finish,
    .submit (some 1) false, .output true false false, .take false, .poll]

theorem reference_chain_repaired :
    (tryRun stepWithin (start false .mac) repairedLoss).map
      (·.sent.map fun a => (a.number, a.frame.id, a.frame.keyframe)) =
      some [(0, 0, true), (1, 1, false), (2, 2, false), (3, 3, false), (4, 5, true)] ∧
    ∀ p, tryRun stepWithin (start false .mac) repairedLoss = some p → p.NoGap := by
  refine ⟨by decide +kernel, ?_⟩
  intro p hp
  exact reference_chain false .mac (reach_of_tryRun .init hp)

/-- Two frames are in the encoder when the queue is full. -/
def lostInDrain : List PumpEvent :=
  [.submit (some 1) false, .output true false false, .take false, .poll,
    .submit (some 1) false, .output false false false, .submit (some 1) false,
    .output false false false, .submit (some 1) false, .output false false false,
    .submit (some 1) false, .submit (some 1) false, .output false false true, .finish,
    .take false, .poll, .finish, .output false false false,
    .take false, .poll, .finish, .take false, .poll, .finish, .take false, .poll]

/-- The fifth frame is dropped, and the sixth, a delta, is sent under its number. -/
theorem dropped_then_delta : ∃ p, Reach step (start false .mac) p ∧ ¬ p.NoGap := by
  have hrun : (tryRun step (start false .mac) lostInDrain).map (·.sent) =
      some [⟨0, 0, ⟨0, 0, true, 1⟩⟩, ⟨1, 0, ⟨0, 1, false, 1⟩⟩, ⟨2, 0, ⟨0, 2, false, 1⟩⟩,
        ⟨3, 0, ⟨0, 3, false, 1⟩⟩, ⟨4, 0, ⟨0, 5, false, 1⟩⟩] := by
    decide +kernel
  obtain ⟨p, hp, hsent⟩ := Option.map_eq_some_iff.mp hrun
  refine ⟨p, reach_of_tryRun .init hp, ?_⟩
  intro hgap
  have hfollows := hgap ⟨3, 0, ⟨0, 3, false, 1⟩⟩ (by rw [hsent]; decide)
    ⟨4, 0, ⟨0, 5, false, 1⟩⟩ (by rw [hsent]; decide) ⟨rfl, rfl, .inr rfl⟩
  exact absurd hfollows (by decide)

end VideoPump

end NebulaDesk
