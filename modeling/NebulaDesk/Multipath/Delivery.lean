/-
Records are delivered once, in order and unaltered.

`Linked` collects what holds of every reachable system: it is sound, every copy
of a record on a link is genuine and what is outstanding on a link is bounded.
The main result is `delivered_prefix`: what one end has handed to its
application on a reliable channel is the beginning of what the other end has
numbered on it.
-/
import NebulaDesk.Multipath.Refinement

namespace NebulaDesk

namespace Multipath

open Shared Relation

namespace Link

variable {c : Channel} {streams : ℕ} {lossy : Prop} {l l' : Link}

theorem Genuine.steps (h : l.Genuine c) (hs : ReflTransGen (Step streams c lossy) l l') :
    l'.Genuine c := by
  induction hs with
  | refl => exact h
  | tail _ hstep ih => exact ih.step hstep

theorem Bounded.steps (h : l.Bounded) (hs : ReflTransGen (Step streams c lossy) l l') :
    l'.Bounded := by
  induction hs with
  | refl => exact h
  | tail _ hstep ih => exact ih.step hstep

end Link

namespace System

variable {g : Setting} {P : TransportError → Prop} {sys sys' : System} {e : Bool} {c : Channel}

structure Linked (sys : System) : Prop where
  sound : sys.Sound
  filed : sys.Filed
  genuine : ∀ e, ∀ c ∈ reliable, (sys.link e c).Genuine c
  bounded : ∀ e, ∀ c ∈ reliable, (sys.link e c).Bounded

theorem not_under_start (native : Bool → Native) (now : ℕ) (e : Bool) (m : Incoming) :
    ¬ (start native now).Under e m := by
  rintro (⟨k, hk⟩ | ⟨k, hk⟩ | ⟨id, hid⟩)
  · by_cases h0 : k = 0 <;> simp [start, h0, Conn.new] at hk
  · by_cases h0 : k = 0 <;> simp [start, h0, Conn.new] at hk
  · simp [start, End.start] at hid

theorem lanes_start (native : Bool → Native) (now : ℕ) (e : Bool) (c : Channel) (k : ℕ) :
    ((start native now).link e c).lanes k = Lane.new c := by
  by_cases h0 : k = 0 <;> simp [link, start, h0, Conn.new]

theorem opened_start (native : Bool → Native) (now : ℕ) (e : Bool) (c : Channel) (k : ℕ) :
    ((start native now).link e c).opened k = ∅ := by
  ext m
  constructor
  · rintro ⟨-, hm⟩
    exact not_under_start native now (!e) m (.inr (.inl ⟨k, hm⟩))
  · exact fun hm => hm.elim

theorem queued_start (native : Bool → Native) (now : ℕ) (e : Bool) (c : Channel) :
    ((start native now).link e c).queued = ∅ := by
  ext m
  constructor
  · rintro ⟨-, hm⟩
    exact not_under_start native now (!e) m (.inr (.inr hm))
  · exact fun hm => hm.elim

theorem linked_start (native : Bool → Native) (now : ℕ) : (start native now).Linked where
  sound := sound_start native now
  filed := fun e c x hx => by cases hx
  genuine := fun e c _ =>
    { bound := by
        show 0 < 2 ^ 64
        norm_num
      pending := fun p hp => by cases hp
      sending := fun x hx => by cases hx
      lanes := fun k x hx => by
        rw [lanes_start] at hx
        cases hx
      opened := fun k m hm => by
        rw [opened_start] at hm
        exact hm.elim
      queued := fun m hm => by
        rw [queued_start] at hm
        exact hm.elim
      held := fun x hx => by cases hx
      received_le := le_rfl
      delivered := rfl }
  bounded := fun e c _ =>
    { acks := by
        rintro v ⟨m, hm, -⟩
        exact absurd hm (not_under_start native now e m)
      acked := le_rfl
      retained := le_rfl
      run := rfl
      room := Nat.zero_le _
      base := le_rfl
      held := fun x hx => by cases hx
      nodup := List.nodup_nil }

theorem Linked.steps (h : sys.Linked) (hs : Steps g P sys sys') : sys'.Linked where
  sound := h.sound.steps hs
  filed := h.filed.steps hs
  genuine := fun e c hc => (h.genuine e c hc).steps
    (steps_refine h.sound h.filed (h.genuine e c hc) hs (fun _ => trivial) hc)
  bounded := fun e c hc => (h.bounded e c hc).steps
    (steps_refine h.sound h.filed (h.genuine e c hc) hs (fun _ => trivial) hc)

/-- **Invariant.**  Every reachable system is linked. -/
theorem linked_of_reach {native : Bool → Native} {now : ℕ}
    (hr : Runs.Reach (step g) (start native now) sys) : sys.Linked :=
  hr.invariant (linked_start native now) fun _ _ _ hl hstep =>
    hl.steps (step_cases allows_true hl.sound (trusts_true _) hstep)

/-- What the application of an end has been handed on a channel. -/
def delivered (sys : System) (e : Bool) (c : Channel) : List Incoming :=
  (sys.ends e).output.filterMap (deliveredOn c)

/-- **Exactly once, in order.**  Whatever the paths, the callers and the network
do, an end's application is handed a prefix of what the other end has numbered
on a reliable channel, each record as it was sent and under its own sequence. -/
theorem delivered_prefix {native : Bool → Native} {now : ℕ}
    (hr : Runs.Reach (step g) (start native now) sys) (e : Bool) (hc : c ∈ reliable) :
    sys.delivered (!e) c <+: ((sys.ends e).records c).mapIdx (stamp c) ∧
      ((sys.ends e).records c).length = (sys.ends e).shared.allocated c ∧
      (sys.delivered (!e) c).length = (sys.ends (!e)).shared.received c := by
  have hl := linked_of_reach hr
  have hg := hl.genuine e c hc
  have heq : sys.delivered (!e) c =
      (((sys.ends e).records c).mapIdx (stamp c)).take ((sys.ends (!e)).shared.received c) :=
    hg.delivered
  have hle : (sys.ends (!e)).shared.received c ≤ ((sys.ends e).records c).length := hg.received_le
  refine ⟨?_, (hl.sound.allocated e c hc).symm, ?_⟩
  · rw [heq]
    exact List.take_prefix _ _
  · rw [heq, List.length_take, List.length_mapIdx, Nat.min_eq_left hle]

/-! ### A run -/

/-- A native session whose datagrams carry probes. -/
def sampleNative : Native := ⟨0, false, some 1200, some [1], 1024⟩

def sampleSetting : Setting := ⟨fun _ _ => false, 256⟩

def sampleRequest : Request := ⟨MsgHeader.new .ping 0 0, [7]⟩

def sampleStart : System := start (fun _ => sampleNative) 0

/-- The steps of one record of `c` from a caller to the first path, under way. -/
def writeRecord (c : Channel) : List Action :=
  [.send false c sampleRequest, .advance false c 0, .advance false c 0, .advance false c 0,
    .take false c, .wake false c, .sealCopy false c 0]

/-- The steps of the record from there to the application of the other end. -/
def readRecord (c : Channel) : List Action :=
  [.arrive false 0 c 0, .forward true 0 0, .process true [], .deliver true []]

/-- Both ends attach a direct path and lose the first one. -/
def switchPath : List Action :=
  [.connect 1, .attach false { sampleNative with conn := 1 },
    .attach true { sampleNative with conn := 1 }, .sever 0 none 0, .notice false 0,
    .process false [], .notice true 0, .process true []]

/-- One record of `c` over the first path, and a second one once that is lost; the first
is written again. -/
def writeSecond (c : Channel) : List Action :=
  writeRecord c ++ readRecord c ++ (.written false c 0 :: switchPath) ++ writeRecord c ++
    ([.written false c 0, .wake false c, .sealCopy false c 0] : List Action)

/-- Both copies are read from the direct path. -/
def readSecond (c : Channel) : List Action :=
  [.arrive false 1 c 0, .arrive false 1 c 1, .forward true 1 0, .forward true 1 0]

theorem delivered_prefix_control :
    ∃ sys, Runs.Reach (step sampleSetting) sampleStart sys ∧
      ((sys.ends false).shared.selected.map (·.kind)) = some .direct ∧
      (sys.delivered true .control).length = 2 ∧
      sys.delivered true .control <+: ((sys.ends false).records .control).mapIdx (stamp .control) := by
  have hrun : (Runs.tryRun (step sampleSetting) sampleStart (writeSecond .control ++
      readSecond .control ++ [.process true [], .process true [], .deliver true []])).map
        (fun sys => ((sys.ends false).shared.selected.map (·.kind),
          (sys.delivered true .control).length)) = some (some .direct, 2) := by
    decide +kernel
  obtain ⟨sys, hsys, hstate⟩ := Option.map_eq_some_iff.mp hrun
  have hr := Runs.reach_of_tryRun .init hsys
  obtain ⟨hkind, hlength⟩ := Prod.mk.inj hstate
  exact ⟨sys, hr, hkind, hlength, ( delivered_prefix hr false (by decide)).1⟩

end System

end Multipath

end NebulaDesk
