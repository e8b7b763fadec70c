/-
No channel starves (`Inbox::ready` and `deliver` in `ndp-transport/src/multipath.rs`).

Between two deliveries anything may happen to the two ends, but only a delivery moves the cursor or
takes a record away, and each goes to the first ready channel from the cursor on.  `Waits` says what
that makes of a channel whose next record is there: it still is after every step that does not hand
it on, and the channels served meanwhile are overtaken in the sense of `RoundRobin`.  The main
result is `inbox_fair`.
-/
import NebulaDesk.Lib.RoundRobin
import NebulaDesk.Multipath.Media

namespace NebulaDesk

namespace Multipath

open RoundRobin Shared

theorem getD_id (c : Channel) : Channel.all.getD c.id .control = c := by cases c <;> rfl

theorem id_getD {i : ℕ} (h : i < 6) : (Channel.all.getD i .control).id = i := by
  interval_cases i <;> rfl

namespace End

variable {t t' : End} {c d : Channel} {h : Host}

/-- Whether the next record of a channel is there. -/
def holds (t : End) (c : Channel) : Bool :=
  ((t.inbox.pending c).lookup (t.shared.received c)).isSome

/-- `ready` is the choice of a cursor over the ids of the channels. -/
theorem ready_eq (t : End) : t.ready =
    (pick 6 t.inbox.cursor fun i => t.holds (Channel.all.getD i .control)).map
      (Channel.all.getD · .control) := by
  unfold ready pick holds
  rw [List.find?_map, List.find?_map, Option.map_map]
  rfl

theorem ready_some (hd : t.ready = some d) : t.holds d = true ∧
    pick 6 t.inbox.cursor (fun i => t.holds (Channel.all.getD i .control)) = some d.id := by
  rw [ready_eq] at hd
  obtain ⟨i, hi, rfl⟩ := Option.map_eq_some_iff.mp hd
  obtain ⟨hholds, hlt⟩ := pick_some hi
  exact ⟨hholds, by rw [hi, id_getD hlt]⟩

/-- What a step that hands on no record of `c` does to the inbox. -/
structure Spares (c : Channel) (t t' : End) : Prop where
  received : t'.shared.received c = t.shared.received c
  pending : ∀ s m, (t.inbox.pending c).lookup s = some m → (t'.inbox.pending c).lookup s = some m

theorem Spares.holds (hk : Spares c t t') (ht : t.holds c = true) : t'.holds c = true := by
  obtain ⟨m, hm⟩ := Option.isSome_iff_exists.mp ht
  show ((t'.inbox.pending c).lookup (t'.shared.received c)).isSome = true
  rw [hk.received, hk.pending _ m hm]
  rfl

theorem receive_cursor {id : ℕ} {m : Incoming} :
    (t.receive h id m).1.inbox.cursor = t.inbox.cursor := by
  unfold receive
  split
  · rfl
  · unfold receiveData
    dsimp only
    split
    · unfold receiveReliable
      dsimp only
      split
      · rfl
      split
      · rfl
      split <;> split <;> rfl
    · unfold receiveMedia
      dsimp only
      split
      · rfl
      · split <;> split <;> rfl
  · unfold receiveInternal
    split <;> rfl

theorem lookup_of_kept {m : Incoming} {r : Except TransportError Unit} {inbox : Inbox}
    (hk : Kept t m r inbox) {s : ℕ} {x : Incoming} (hx : (t.inbox.pending c).lookup s = some x) :
    (inbox.pending c).lookup s = some x := by
  cases hk with
  | same _ hpending hbytes hwhy => rwa [hpending]
  | insert sequence epoch payload hc hparse hle hnew _ hpending hbytes =>
    rw [hpending, Function.update_apply]
    split
    · rename_i hcm
      subst hcm
      have hne : s ≠ sequence := by
        rintro rfl
        exact hnew (List.mem_map.mpr ⟨_, mem_of_lookup hx, rfl⟩)
      rw [List.lookup_cons, beq_false_of_ne hne]
      exact hx
    · exact hx

/-- **The receive loop only adds to what is pending.** -/
theorem process_spares (hs : t.shared.Steady) (ht : t.process h = some t') :
    t'.inbox.cursor = t.inbox.cursor ∧ Spares c t t' := by
  unfold process at ht
  split at ht
  · cases ht
  rename_i event rest hevents
  dsimp only at ht
  split at ht
  · rename_i id error
    cases ht
    have hfail : Steers (fun _ => True) t.shared (t.shared.failPath h id error) :=
      failPath_steers hs trivial
    exact ⟨rfl, congrFun hfail.received c, fun _ _ hx => hx⟩
  · rename_i id m
    have hrec : Received (fun _ => True) { t with events := rest } m
        (End.receive h id m { t with events := rest }) := receive_cases allows_true hs
    have hcursor : (End.receive h id m { t with events := rest }).1.inbox.cursor = t.inbox.cursor :=
      receive_cursor
    obtain ⟨a, hsteers, -⟩ := hrec.shared
    have hkept := hrec.inbox
    split at ht <;> rename_i hres <;> cases ht <;>
      rw [hres] at hsteers hkept hcursor
    · exact ⟨hcursor, congrFun hsteers.received c, fun s x hx => lookup_of_kept hkept hx⟩
    · rename_i error
      have hfail : Steers (fun _ => True) _ (Shared.failPath h id error _) :=
        failPath_steers hsteers.steady trivial
      exact ⟨hcursor, congrFun (hfail.received.trans hsteers.received) c,
        fun s x hx => lookup_of_kept hkept hx⟩

/-- **A delivery moves the cursor past its channel and takes from no other one.** -/
theorem deliver_spares (hs : t.shared.Steady) (ht : t.deliver h d = some t') :
    t'.inbox.cursor = (d.id + 1) % 6 ∧ (c ≠ d → Spares c t t') := by
  unfold deliver at ht
  dsimp only at ht
  split at ht
  · cases ht
  rename_i m hm
  cases ht
  refine ⟨rfl, fun hne => ⟨?_, ?_⟩⟩
  · have hsteers := Steers.foldl (P := fun _ => True)
      (f := fun s id => s.internal h id .ack none) (s := t.shared.count d)
      (fun s id hs => internal_steers (by simp) hs rfl) { hs with }
      ((PathKind.all.filterMap t.shared.routes.paths).map (·.id))
    have hcount : (t.shared.count d).received c = t.shared.received c :=
      Function.update_of_ne hne _ _
    exact (congrFun hsteers.received c).trans hcount
  · intro s x hx
    show ((Function.update t.inbox.pending d _) c).lookup s = some x
    rwa [Function.update_of_ne hne]

end End

namespace System

open End (Spares)

variable {g : Setting} {P : TransportError → Prop} {sys sys' : System} {e : Bool} {c : Channel}

/-- The channel whose record a step of `e` hands to the application. -/
def handedOn (e : Bool) (sys : System) (a : Action) (_ : System) : Option Channel :=
  match a with
  | .deliver e' _ => if e' = e then (sys.ends e).ready else none
  | _ => none

theorem received_commit {t : End} (h : t.shared.received = (sys.ends e).shared.received)
    (b : Bool) : ((sys.commit e t).ends b).shared.received = (sys.ends b).shared.received := by
  rcases either b e with rfl | rfl
  · rw [commit_self]
    exact h
  · rw [commit_other]

theorem received_of_steps (hs : Steps g P sys sys')
    (hinbox : ∀ b, (sys'.ends b).inbox = (sys.ends b).inbox) (b : Bool) :
    (sys'.ends b).shared.received = (sys.ends b).shared.received := by
  cases hs with
  | tick time => rfl
  | conn k established closed hclosed => rfl
  | route e s hs => exact received_commit hs.received b
  | attach e native s id hs =>
    refine (received_commit ?_ b :)
    rw [hs.eq]
    rfl
  | report e => exact received_commit (by rfl) b
  | callers e c w hc hpending hsending haccounted => exact received_commit (by rfl) b
  | wake e c hc hlive =>
    refine received_commit ?_ b
    unfold End.wake
    dsimp only
    split <;> rfl
  | number e c request rest hc hqueue hroom hmax => exact received_commit (by rfl) b
  | sealCopy e c i x hc hx hroom t ht =>
    refine (received_commit ?_ b :)
    rw [ht]
    rfl
  | complete e c i x s hc hx hdone hs => exact received_commit hs.received b
  | mediaLost e c s hc hs => exact received_commit hs.received b
  | mediaSent e c header payload y hc hy t ht =>
    refine (received_commit ?_ b :)
    rw [ht]
    rfl
  | arrive e k c n x hc hx hopen harrives => rfl
  | lossy e k m hm => rfl
  | forward e k i id r hr t ht =>
    refine (received_commit ?_ b :)
    rw [ht]
  | notice e id error => exact received_commit (by rfl) b
  | failed e id error rest s hevents hs => exact received_commit hs.received b
  | received e id m rest t r s hevents ht hres hs =>
    refine received_commit ?_ b
    obtain ⟨a, hsteers, -⟩ := ht.shared
    exact hs.received.trans hsteers.received
  | consume e => exact received_commit (by rfl) b
  | deliver e c m s hm inbox hpending hbytes hs =>
    -- The record it takes would still be there.
    exfalso
    have hself := hinbox e
    rw [commit_self] at hself
    have hgone : (inbox.pending c).lookup ((sys.ends e).shared.received c) = some m := by
      rw [show inbox = (sys.ends e).inbox from hself]
      exact hm
    rw [hpending, Function.update_self] at hgone
    have hmem := mem_of_lookup hgone
    simp at hmem

/-- What a step does to the turns of the channels of `e`. -/
inductive Serves (e : Bool) (sys : System) (a : Action) (sys' : System) : Prop
  | nobody (hhanded : handedOn e sys a sys' = none)
      (hcursor : (sys'.ends e).inbox.cursor = (sys.ends e).inbox.cursor)
      (hspares : ∀ c, Spares c (sys.ends e) (sys'.ends e))
  | serve (d : Channel) (hhanded : handedOn e sys a sys' = some d)
      (hready : (sys.ends e).ready = some d)
      (hcursor : (sys'.ends e).inbox.cursor = (d.id + 1) % 6)
      (hspares : ∀ c, c ≠ d → Spares c (sys.ends e) (sys'.ends e))

/-- **Every step serves one channel in turn, or none.** -/
theorem serves_of_step (hsound : sys.Sound) {a : Action} (h : step g sys a = some sys') :
    Serves e sys a sys' := by
  have hsame : (sys'.ends e) = sys.ends e → ∀ c, Spares c (sys.ends e) (sys'.ends e) :=
    fun heq c => ⟨by rw [heq], fun s m hm => by rwa [heq]⟩
  have hsteps := step_cases allows_true hsound (trusts_true _) h
  cases inboxStep h with
  | quiet hprocess hdeliver hinbox =>
    refine .nobody ?_ (by rw [hinbox]) fun c => ⟨?_, ?_⟩
    · cases a with
      | deliver e' bad => exact absurd rfl (hdeliver e' bad)
      | _ => rfl
    · rw [received_of_steps hsteps hinbox]
    · intro s m hm
      rwa [hinbox]
  | process e' bad t ht =>
    rcases either e e' with rfl | rfl
    · obtain ⟨hcursor, -⟩ := End.process_spares (c := .control) (hsound.steady e) ht
      refine .nobody rfl (by rw [commit_self]; exact hcursor) fun c => ?_
      rw [commit_self]
      obtain ⟨-, hreceived, hpending⟩ := End.process_spares (hsound.steady e) ht
      exact ⟨hreceived, hpending⟩
    · exact .nobody rfl (by rw [commit_other]) (hsame (commit_other _ _ _))
  | deliver e' bad d t hready ht =>
    rcases either e e' with rfl | rfl
    · obtain ⟨hcursor, -⟩ := End.deliver_spares (c := d) (hsound.steady e) ht
      refine .serve d (by rw [handedOn, if_pos rfl, hready]) hready
        (by rw [commit_self]; exact hcursor) fun c hne => ?_
      rw [commit_self]
      obtain ⟨hreceived, hpending⟩ := (End.deliver_spares (hsound.steady e) ht).2 hne
      exact ⟨hreceived, hpending⟩
    · refine .nobody ?_ (by rw [commit_other]) (hsame (commit_other _ _ _))
      rw [handedOn, if_neg (by cases e' <;> decide)]

theorem cursor_lt {native : Bool → Native} {now : ℕ}
    (hr : Runs.Reach (step g) (start native now) sys) : (sys.ends e).inbox.cursor < 6 := by
  refine Runs.Reach.invariant_with (P := fun s => (s.ends e).inbox.cursor < 6)
    hr (fun s hs => (linked_of_reach hs).sound) ?_ ?_
  · show 0 < 6
    norm_num
  · intro s s' a hsound hlt hstep
    cases serves_of_step hsound hstep with
    | nobody hhanded hcursor hspares => rwa [hcursor]
    | serve d hhanded hready hcursor hspares =>
      rw [hcursor]
      exact Nat.mod_lt _ (by norm_num)

/-- A channel whose next record is there, and the channels served since. -/
structure Waits (e : Bool) (c : Channel) (sys : System) (served : List Channel) : Prop where
  holds : (sys.ends e).holds c = true
  overtaken : Overtaken 6 c.id (sys.ends e).inbox.cursor (served.map Channel.id)

variable {served : List Channel}

theorem Waits.nodup (h : Waits e c sys served) : served.Nodup :=
  List.Nodup.of_map _ h.overtaken.nodup

/-- **A channel goes on waiting until it is served.** -/
theorem Waits.step (h : Waits e c sys served) (hsound : sys.Sound)
    (hcursor : (sys.ends e).inbox.cursor < 6) {a : Action} (hstep : step g sys a = some sys')
    (hother : handedOn e sys a sys' ≠ some c) :
    Waits e c sys' (served ++ (handedOn e sys a sys').toList) := by
  cases serves_of_step hsound hstep with
  | nobody hhanded hsame hspares =>
    rw [hhanded, Option.toList_none, List.append_nil]
    exact ⟨(hspares c).holds h.holds, by rw [hsame]; exact h.overtaken⟩
  | serve d hhanded hready hmoved hspares =>
    rw [hhanded] at hother ⊢
    have hne : c ≠ d := fun heq => hother (by rw [heq])
    have hholds : (sys.ends e).holds (Channel.all.getD c.id .control) = true := by
      rw [getD_id]
      exact h.holds
    have hle := ahead_pick c.id_lt hcursor hholds (End.ready_some hready).2
    refine ⟨(hspares c hne).holds h.holds, ?_⟩
    rw [hmoved, Option.toList_some, List.map_append]
    exact h.overtaken.serve c.id_lt d.id_lt (fun heq => hne (Channel.id_inj heq).symm) hle

theorem Waits.exists_deliver (h : Waits e c sys served) (hcursor : (sys.ends e).inbox.cursor < 6)
    (host : Host) : ∃ d t, (sys.ends e).ready = some d ∧ (sys.ends e).deliver host d = some t := by
  have hholds : (sys.ends e).holds (Channel.all.getD c.id .control) = true := by
    rw [getD_id]
    exact h.holds
  have hsome : (pick 6 (sys.ends e).inbox.cursor fun i =>
      (sys.ends e).holds (Channel.all.getD i .control)).isSome :=
    pick_isSome c.id_lt hcursor hholds
  obtain ⟨i, hi⟩ := Option.isSome_iff_exists.mp hsome
  have hready : (sys.ends e).ready = some (Channel.all.getD i .control) := by
    rw [End.ready_eq, hi, Option.map_some]
  obtain ⟨m, hm⟩ := Option.isSome_iff_exists.mp (End.ready_some hready).1
  obtain ⟨t, ht⟩ : ∃ t, (sys.ends e).deliver host (Channel.all.getD i .control) = some t := by
    unfold End.deliver
    dsimp only
    rw [hm]
    exact ⟨_, rfl⟩
  exact ⟨_, t, hready, ht⟩

/-- **No channel starves.**  From every state of a session in which the next record of a channel is
there, and whatever the two ends, their callers and the network do: until the channel is served, no
other one is served twice, its record stays where it is, and a record can be handed on. -/
theorem inbox_fair {native : Bool → Native} {now : ℕ}
    (hr : Runs.Reach (step g) (start native now) sys) (hc : (sys.ends e).holds c = true)
    {served : List Channel} (hrun : Runs.Observed (step g) (handedOn e) sys sys' served) :
    (∀ before, before <+: served → c ∉ before → before.Nodup) ∧
      (c ∉ served → (sys'.ends e).holds c = true ∧
        ∀ host, ∃ d t, (sys'.ends e).ready = some d ∧ (sys'.ends e).deliver host d = some t) := by
  have hinv : Runs.Reach (step g) (start native now) sys' ∧
      (c ∉ served → Waits e c sys' served) ∧
      ∀ before, before <+: served → c ∉ before → before.Nodup := by
    refine hrun.invariant (P := fun sys' served => Runs.Reach (step g) (start native now) sys' ∧
      (c ∉ served → Waits e c sys' served) ∧
      ∀ before, before <+: served → c ∉ before → before.Nodup) ?_ ?_
    · refine ⟨hr, fun _ => ⟨hc, .nil⟩, fun before hbefore _ => ?_⟩
      rw [List.prefix_nil.mp hbefore]
      exact List.nodup_nil
    · rintro s s' history a ⟨hreach, hwaits, hnodup⟩ hstep
      have hnext : c ∉ history ++ (handedOn e s a s').toList →
          Waits e c s' (history ++ (handedOn e s a s').toList) := by
        intro hnew
        rw [List.mem_append, not_or, Option.mem_toList] at hnew
        exact (hwaits hnew.1).step (linked_of_reach hreach).sound (cursor_lt hreach) hstep hnew.2
      refine ⟨hreach.step a hstep, hnext, ?_⟩
      intro before hbefore hnew
      cases hhanded : handedOn e s a s' with
      | none =>
        rw [hhanded, Option.toList_none, List.append_nil] at hbefore
        exact hnodup before hbefore hnew
      | some d =>
        rw [hhanded, Option.toList_some] at hbefore hnext
        rcases List.prefix_concat_iff.mp hbefore with rfl | hshorter
        · exact (hnext hnew).nodup
        · exact hnodup before hshorter hnew
  obtain ⟨hreach, hwaits, hnodup⟩ := hinv
  refine ⟨hnodup, fun hnew => ⟨(hwaits hnew).holds, ?_⟩⟩
  exact (hwaits hnew).exists_deliver (cursor_lt hreach)

/-- A record of the channel `c` lies in the inbox of the other end. -/
def bringRecord (c : Channel) (n : ℕ) : List Action :=
  writeRecord c ++ ([.arrive false 0 c n, .forward true 0 0, .process true []] : List Action)

theorem inbox_fair_busy : ∃ sys sys',
    Runs.Reach (step sampleSetting) sampleStart sys ∧
      Runs.Observed (step sampleSetting) (handedOn true) sys sys' [.control] ∧
      (sys'.ends true).holds .input = true := by
  have hrun : (Runs.tryRun (step sampleSetting) sampleStart
      (bringRecord .control 0 ++ bringRecord .input 0)).map
        (fun sys => (sys.ends true).holds .input) = some true := by decide +kernel
  have hserve : ((Runs.tryRun (step sampleSetting) sampleStart
      (bringRecord .control 0 ++ bringRecord .input 0)).bind fun sys =>
        (Runs.tryObserve (step sampleSetting) (handedOn true) sys [.deliver true []]).map
          (·.2)) = some [.control] := by decide +kernel
  obtain ⟨sys, hsys, hholds⟩ := Option.map_eq_some_iff.mp hrun
  rw [hsys, Option.bind_some] at hserve
  obtain ⟨⟨sys', served⟩, htry, rfl⟩ := Option.map_eq_some_iff.mp hserve
  have hr := Runs.reach_of_tryRun .init hsys
  have hobserved := Runs.observed_of_tryObserve .init htry
  rw [List.nil_append] at hobserved
  exact ⟨sys, sys', hr, hobserved, (( inbox_fair hr hholds hobserved).2 (by decide)).1⟩

end System

end Multipath

end NebulaDesk
