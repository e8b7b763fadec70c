/-
No record is forgotten when paths fail.

While a session runs, every record that the other end has not received is still to
be written on the selected route, or on its way on it, or already with the other
end; the one exception is a selected connection that is closed and whose failure
its end has not noticed (`record_on_its_way`).
-/
import NebulaDesk.Multipath.Honest
import NebulaDesk.Multipath.Tracking

namespace NebulaDesk

namespace Multipath

open Shared Relation

namespace System

variable {g : Setting} {sys : System} {e : Bool} {c : Channel}

theorem tracked_start (native : Bool → Native) (now : ℕ) (e : Bool) (c : Channel) :
    ((start native now).link e c).Tracked g.streams c where
  route := fun _ y hy => by
    cases hy
    exact ⟨rfl, rfl⟩
  homes := fun x hx => by cases hx
  single := List.nodup_nil
  marks := fun p hp => by cases hp
  sent := fun x hx => by cases hx
  logged := fun k x hx => by
    rw [lanes_start] at hx
    cases hx
  trail := fun k => by
    rw [lanes_start]
    exact List.Pairwise.nil
  next := fun x hx => by cases hx
  front := fun _ y _ p hp => by cases hp
  tidy := fun k _ => by
    rw [lanes_start]
    exact ⟨∅, Lane.tidy_new c _⟩
  transit := fun _ y _ _ p hp => by cases hp

/-- **Invariant.**  The links of a reachable system are tracked. -/
theorem tracked_of_reach {native : Bool → Native} {now : ℕ} (hstreams : g.streams < 2 ^ 31)
    (hr : Runs.Reach (System.step g) (start native now) sys) (e : Bool) (hc : c ∈ reliable) :
    (sys.link e c).Tracked g.streams c := by
  refine hr.invariant_with (P := fun sys => (sys.link e c).Tracked g.streams c)
    (fun _ => honest_of_reach) (tracked_start native now e c) fun s s' a h htracked hs => ?_
  have hsteps := step_cases allows_not_faults h.linked.sound h.trusts hs
  have hrun : ReflTransGen (Link.Step g.streams c False) (s.link e c) (s'.link e c) :=
    steps_refine h.linked.sound h.linked.filed (h.linked.genuine e c hc) hsteps h.not_loses hc
  exact htracked.steps (h.linked.genuine e c hc) (h.linked.bounded e c hc) hstreams hrun

/-- Where record `s` of `c`, sent by `e`, can be while `e` has selected `y`. -/
inductive OnItsWay (sys : System) (e : Bool) (c : Channel) (y : Selected) (s : ℕ) : Prop
  /-- Not yet written on the selected route. -/
  | waiting (p : Pending) (hp : p ∈ ((sys.ends e).writers c).pending) (hs : p.sequence = s)
      (hnot : p.attempted y = false)
  /-- Being written to the selected path. -/
  | writing (hopen : (sys.conns y.native.conn).closed = none) (x : Sending)
      (hx : x ∈ ((sys.ends e).writers c).sending) (hconn : x.copy.conn = y.native.conn)
      (hepoch : x.copy.epoch = y.epoch) (hs : x.copy.sequence = s)
  /-- Under way on the selected path. -/
  | flying (hopen : (sys.conns y.native.conn).closed = none) (n : ℕ) (x : Copy)
      (hn : n ∈ ((sys.conns y.native.conn).lanes e c).flight)
      (hx : ((sys.conns y.native.conn).lanes e c).log[n]? = some x)
      (hepoch : x.epoch = y.epoch) (hs : x.sequence = s)
  /-- Read by the other end from some path. -/
  | read (k : ℕ) (m : Incoming) (hm : .ok m ∈ (sys.conns k).opened (!e))
      (hcarries : Carries c ((sys.ends e).records c) m s)
  /-- Queued for the inbox. -/
  | queued (id : ℕ) (m : Incoming) (hm : Event.received id m ∈ (sys.ends !e).events)
      (hcarries : Carries c ((sys.ends e).records c) m s)
  /-- Held in the inbox. -/
  | held (hs : s ∈ ((sys.ends !e).inbox.pending c).map Prod.fst)

theorem onItsWay_of_transit {y : Selected} {s : ℕ} (h : (sys.link e c).InTransit c y s) :
    sys.OnItsWay e c y s ∨ (sys.conns y.native.conn).closed.isSome := by
  cases hclosed : (sys.conns y.native.conn).closed with
  | some closure => exact .inr rfl
  | none =>
    refine .inl ?_
    cases h with
    | writing x hx hu hconn he hs => exact .writing hclosed x hx hconn he hs
    | flying n x hn hx he hs => exact .flying hclosed n x hn hx he hs
    | read k m hm hcar => exact .read k m hm.2 hcar
    | queued m hm hcar =>
      obtain ⟨-, id, hid⟩ := hm
      exact .queued id m hid hcar
    | held hs => exact .held hs
    | cut hcl =>
      have hcl : (sys.conns y.native.conn).closed.isSome := hcl
      rw [hclosed] at hcl
      cases hcl

/-- **No record is forgotten.**  While an end runs it has a selected path, and
every record that it numbered and the other end has not received is on its way,
unless the connection of that path is closed or has used up its counters.  A copy
that arrives on the selected route and is refused is one of a record that was
received. -/
theorem record_on_its_way {native : Bool → Native} {now : ℕ} (hstreams : g.streams < 2 ^ 31)
    (hr : Runs.Reach (System.step g) (start native now) sys) (e : Bool) (hc : c ∈ reliable)
    (hlive : (sys.ends e).shared.shutdown = false) :
    ∃ y, (sys.ends e).shared.selected = some y ∧
      (∀ s, (sys.ends !e).shared.received c ≤ s → s < (sys.ends e).shared.allocated c →
        sys.OnItsWay e c y s ∨ (sys.conns y.native.conn).closed.isSome ∨
          2 ^ 64 < ((sys.conns y.native.conn).lanes e c).log.length) ∧
      ∀ n x error, ((sys.conns y.native.conn).lanes e c).log[n]? = some x →
        ((sys.conns y.native.conn).lanes e c).log.length ≤ 2 ^ 64 →
        ((sys.conns y.native.conn).lanes e c).arrives c n = true →
        (((sys.conns y.native.conn).lanes e c).take c n x).1 = .error error → x.epoch = y.epoch →
        x.sequence < (sys.ends !e).shared.received c := by
  have h := honest_of_reach hr
  have ht := tracked_of_reach hstreams hr e hc
  have hg := h.linked.genuine e c hc
  have hb := h.linked.bounded e c hc
  obtain ⟨p, hp⟩ := Option.isSome_iff_exists.mp ((h.linked.sound.steady e).present hlive)
  have hy : (sys.ends e).shared.selected =
      some ⟨p.id, p.kind, (sys.ends e).shared.routes.txEpoch, p.native⟩ := selected_eq_some.mpr ⟨p, hp, rfl⟩
  generalize hydef : (⟨p.id, p.kind, (sys.ends e).shared.routes.txEpoch, p.native⟩ : Selected) = y at hy
  refine ⟨y, hy, fun s hle hlt => ?_, fun n x error hx hlen harrives herror hepoch => ?_⟩
  · rw [h.linked.sound.allocated e c hc] at hlt
    have hacked := hb.acked
    have hbase := hb.base
    have hret := hb.retained
    have hle' : (sys.link e c).received ≤ s := hle
    have hlt' : s < (sys.link e c).records.length := hlt
    obtain ⟨q, hq, hqs⟩ := hb.run.mem.mpr ⟨(by omega : _ ≤ s), by omega⟩
    cases hatt : q.attempted y with
    | false => exact .inl (.waiting q hq hqs hatt)
    | true =>
      by_cases hlen : ((sys.conns y.native.conn).lanes e c).log.length ≤ 2 ^ 64
      · have htransit := ht.transit hlive y hy hlen q hq hatt (hqs ▸ hle)
        rw [hqs] at htransit
        exact (onItsWay_of_transit htransit).imp_right .inl
      · exact .inr (.inr (Nat.lt_of_not_le hlen))
  · by_contra hnew
    have hcur := (ht.route hlive y hy).1
    have hok := ht.take_ok hg hb hstreams hlen hx harrives (hepoch.trans hcur) (Nat.le_of_not_lt hnew)
    rw [show (sys.link e c).lanes y.native.conn = (sys.conns y.native.conn).lanes e c from rfl,
      herror] at hok
    cases hok

/-- The second of two records, once the first path is lost. -/
theorem record_on_its_way_control :
    ∃ sys, Runs.Reach (System.step sampleSetting) sampleStart sys ∧
      (sys.ends true).shared.received .control = 1 ∧ (sys.ends false).shared.allocated .control = 2 ∧
      ∃ y, (sys.ends false).shared.selected = some y ∧ y.kind = .direct ∧
        (sys.conns y.native.conn).closed = none ∧ sys.OnItsWay false .control y 1 := by
  have hrun : (Runs.tryRun (System.step sampleSetting) sampleStart (writeSecond .control)).map
      (fun sys => ((sys.ends true).shared.received .control,
        (sys.ends false).shared.allocated .control, (sys.ends false).shared.shutdown,
        (sys.ends false).shared.selected.map fun y => (y.kind,
          (sys.conns y.native.conn).closed.isNone &&
            decide (((sys.conns y.native.conn).lanes false .control).log.length ≤ 2 ^ 64)))) =
      some (1, 2, false, some (.direct, true)) := by decide +kernel
  obtain ⟨sys, hsys, hstate⟩ := Option.map_eq_some_iff.mp hrun
  obtain ⟨hreceived, hstate⟩ := Prod.mk.inj hstate
  obtain ⟨hallocated, hstate⟩ := Prod.mk.inj hstate
  obtain ⟨hlive, hpath⟩ := Prod.mk.inj hstate
  have hreach := Runs.reach_of_tryRun .init hsys
  obtain ⟨y, hy, hall, -⟩ :=
    record_on_its_way (c := .control) (by decide) hreach false (by decide) hlive
  rw [hy, Option.map_some, Option.some.injEq] at hpath
  obtain ⟨hkind, hpath⟩ := Prod.mk.inj hpath
  obtain ⟨hopen, hlength⟩ := Bool.and_eq_true_iff.mp hpath
  rw [Option.isNone_iff_eq_none] at hopen
  refine ⟨sys, hreach, hreceived, hallocated, y, hy, hkind, hopen, ?_⟩
  rcases hall 1 hreceived.le (by omega) with hway | hclosed | hlong
  · exact hway
  · rw [hopen] at hclosed
    cases hclosed
  · exact absurd (of_decide_eq_true hlength) (Nat.not_le.mpr hlong)

/-- The network gives the only connection up while a record is under way: neither
end has stopped, and the record is nowhere. -/
theorem lost_with_connection :
    ∃ sys, Runs.Reach (System.step sampleSetting) sampleStart sys ∧
      (∀ e, (sys.ends e).shared.shutdown = false) ∧
      (sys.ends true).shared.received .control = 0 ∧ (sys.ends false).shared.allocated .control = 1 ∧
      ¬ ∃ y, (sys.ends false).shared.selected = some y ∧ sys.OnItsWay false .control y 0 := by
  -- Everything about the last state but what other connections have read.
  have hrun : (Runs.tryRun (System.step sampleSetting) sampleStart
      (writeRecord .control ++ [.sever 0 none 0])).map (fun sys =>
        (!(sys.ends false).shared.shutdown && !(sys.ends true).shared.shutdown &&
          (sys.ends true).events.isEmpty && ((sys.ends true).inbox.pending .control).isEmpty &&
          (sys.ends false).shared.selected.all (fun y => (sys.conns y.native.conn).closed.isSome &&
            ((sys.ends false).writers .control).pending.all (·.attempted y)),
        (sys.ends true).shared.received .control, (sys.ends false).shared.allocated .control)) =
      some (true, 0, 1) := by decide +kernel
  have hopened : ∀ k, (Runs.tryRun (System.step sampleSetting) sampleStart
      (writeRecord .control ++ [.sever 0 none 0])).map (fun sys => (sys.conns k).opened true) =
      some [] := by
    intro k
    cases k with
    | zero => decide +kernel
    | succ k => rfl
  obtain ⟨sys, hsys, hstate⟩ := Option.map_eq_some_iff.mp hrun
  simp only [hsys, Option.map_some, Option.some.injEq] at hopened
  simp only [Prod.mk.injEq, Bool.and_eq_true, Bool.not_eq_true', List.isEmpty_iff] at hstate
  obtain ⟨⟨⟨⟨⟨hfalse, htrue⟩, hevents⟩, hheld⟩, hroute⟩, hreceived, hallocated⟩ := hstate
  refine ⟨sys, Runs.reach_of_tryRun .init hsys, fun e => ?_, hreceived, hallocated, ?_⟩
  · cases e
    · exact hfalse
    · exact htrue
  rintro ⟨y, hy, hway⟩
  rw [hy] at hroute
  simp only [Option.all_some, Bool.and_eq_true, List.all_eq_true] at hroute
  obtain ⟨hclosed, hattempted⟩ := hroute
  cases hway with
  | waiting p hp hs hnot =>
    rw [hattempted p hp] at hnot
    cases hnot
  | writing hopen | flying hopen =>
    rw [hopen] at hclosed
    cases hclosed
  | read k m hm =>
    rw [Bool.not_false, hopened] at hm
    cases hm
  | queued id m hm =>
    rw [Bool.not_false, hevents] at hm
    cases hm
  | held hs =>
    rw [Bool.not_false, hheld] at hs
    cases hs

end System

end Multipath

end NebulaDesk
