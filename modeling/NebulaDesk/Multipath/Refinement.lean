/-
The system refines its links.

`System.link` is what a reliable channel sees of the system in one direction.
Every step of the system is a run of steps of every link (`steps_refine`), so
what holds along the runs of a link holds of the channel in every reachable
state.
-/
import NebulaDesk.Multipath.Cases
import NebulaDesk.Multipath.Link

namespace NebulaDesk

namespace Multipath

open Shared Relation

/-- The sending half of an end, for one channel. -/
def End.tx (c : Channel) (t : End) : Tx where
  records := t.records c
  acknowledged := t.shared.acknowledged c
  pending := (t.writers c).pending
  sending := (t.writers c).sending
  live := t.shared.shutdown = false
  epoch := t.shared.routes.txEpoch
  route := t.shared.selected

/-- The receiving half of an end, for one channel. -/
def End.rx (c : Channel) (t : End) : Rx where
  queued := {m | m.channel = c ∧ ∃ id, Event.received id m ∈ t.events}
  held := t.inbox.pending c
  received := t.shared.received c
  delivered := t.output.filterMap (deliveredOn c)

namespace System

/-- `m` is on its way to the end `e`. -/
def Under (sys : System) (e : Bool) (m : Incoming) : Prop :=
  (∃ k, m ∈ (sys.conns k).bag (!e)) ∨ (∃ k, .ok m ∈ (sys.conns k).opened e) ∨
    ∃ id, Event.received id m ∈ (sys.ends e).events

/-- One reliable channel from the end `e` to the other. -/
def link (sys : System) (e : Bool) (c : Channel) : Link where
  toTx := (sys.ends e).tx c
  toRx := (sys.ends !e).rx c
  closed k := (sys.conns k).closed.isSome
  ids k := (sys.conns k).pathId e
  lanes k := (sys.conns k).lanes e c
  opened k := {m | m.channel = c ∧ .ok m ∈ (sys.conns k).opened (!e)}
  acks := {v | ∃ m, sys.Under e m ∧ Says c v m}

variable {g : Setting} {P : TransportError → Prop} {lossy : Prop} {sys sys' : System}
  {d e : Bool} {c : Channel}

/-- What is around the records changes as `steer` allows. -/
structure Around (sys sys' : System) (d : Bool) (c : Channel) (received : ℕ) : Prop where
  keeps : Keeps (sys.ends d).shared (sys'.ends d).shared
  closed : ∀ k, (sys.conns k).closed.isSome → (sys'.conns k).closed.isSome
  ids : ∀ k i, (sys.conns k).pathId d = some i → (sys'.conns k).pathId d = some i
  under : ∀ m, sys'.Under d m → sys.Under d m ∨ ∀ v, Says c v m → v ≤ received

/-- A run of steps of a link makes it the link of a later system. -/
abbrev Refines (g : Setting) (lossy : Prop) (d : Bool) (c : Channel) (sys sys' : System) : Prop :=
  ReflTransGen (Link.Step g.streams c lossy) (sys.link d c) (sys'.link d c)

theorem refines_of_same {mid : Link} (h : sys'.Sound)
    (hmid : ReflTransGen (Link.Step g.streams c lossy) (sys.link d c) mid)
    (hroutes : Link.SameRoutes (sys.link d c) mid) (hrecords : Link.SameRecords mid (sys'.link d c))
    (haround : Around sys sys' d c mid.received) : Refines g lossy d c sys sys' := by
  refine hmid.tail ?_
  rw [← hrecords.eq]
  refine .steer _ _ _ _ _ _ ?_ ?_ ?_ ?_ ?_ ?_ ?_
  · rw [hroutes.live]
    exact haround.keeps.live
  · rw [hroutes.epoch]
    exact haround.keeps.epoch
  · rw [hroutes.epoch, hroutes.route]
    exact haround.keeps.kept
  · intro _ y hy
    obtain ⟨p, hp, rfl⟩ := selected_eq_some.mp hy
    exact ⟨rfl, h.homed d _ p hp⟩
  · rw [hroutes.closed]
    exact haround.closed
  · rw [hroutes.ids]
    exact haround.ids
  · rintro v ⟨m, hunder, hvalue⟩
    rw [hroutes.acks]
    rcases haround.under m hunder with hold | hle
    · exact .inl ⟨m, hold, hvalue⟩
    · exact .inr (hle v hvalue)

/-! ### One end acts -/

theorem says_le {kind : InternalKind} {nonce : Option ℕ} (hfits : kind.Fits nonce)
    {received : Channel → ℕ} (hc : c ∈ reliable) {v : ℕ}
    (h : Says c v ⟨.audio, MsgHeader.new .ping 0 0, internalPayload kind nonce received⟩) :
    v ≤ received c := by
  obtain ⟨kind', nonce', bytes, hparse, rfl⟩ := h
  obtain ⟨n, hn⟩ := parse_internalPayload hfits (MsgHeader.new .ping 0 0) rfl received
  rw [hn] at hparse
  cases hparse
  rw [ackOf_acks hc]
  exact Nat.mod_le _ _

section Commit

variable {t : End} (hm : Moves P (sys.ends e).shared t.shared)
include hm

theorem around_sent (hevents : ∀ id m, Event.received id m ∈ t.events →
      Event.received id m ∈ (sys.ends e).events) (n : ℕ) : Around sys (sys.commit e t) e c n where
  keeps := by
    rw [commit_self]
    exact { hm with }
  closed := (commit_conns e t sys).closed
  ids := fun k i hi => by rwa [(commit_conns e t sys).pathId]
  under := by
    rintro m (⟨k, hk⟩ | ⟨k, hk⟩ | ⟨id, hid⟩)
    · rw [(commit_conns e t sys).others] at hk
      exact .inl (.inl ⟨k, hk⟩)
    · rw [(commit_conns e t sys).opened] at hk
      exact .inl (.inr (.inl ⟨k, hk⟩))
    · rw [commit_self] at hid
      exact .inl (.inr (.inr ⟨id, hevents id m hid⟩))

/-- Around what the other end sends: new acknowledgments say what is true. -/
theorem around_got (hc : c ∈ reliable) :
    Around sys (sys.commit e t) (!e) c (t.shared.received c) where
  keeps := by
    rw [commit_other]
    exact .refl _
  closed := (commit_conns e t sys).closed
  ids := fun k i hi => by rwa [(commit_conns e t sys).pathId]
  under := by
    rintro m (⟨k, hk⟩ | ⟨k, hk⟩ | ⟨id, hid⟩)
    · rw [Bool.not_not] at hk
      rcases (commit_conns e t sys).bag k m hk with hk | ⟨payload, hp, rfl⟩
      · refine .inl (.inl ⟨k, ?_⟩)
        rwa [Bool.not_not]
      · obtain ⟨kind, nonce, hfits, rfl⟩ := hm.said k payload hp
        exact .inr fun v hv => says_le hfits hc hv
    · rw [(commit_conns e t sys).opened] at hk
      exact .inl (.inr (.inl ⟨k, hk⟩))
    · rw [commit_other] at hid
      exact .inl (.inr (.inr ⟨id, hid⟩))

theorem sent (h' : (sys.commit e t).Sound)
    (hevents : ∀ id m, Event.received id m ∈ t.events →
      Event.received id m ∈ (sys.ends e).events)
    (hmid : ReflTransGen (Link.Step g.streams c lossy) (sys.link e c)
      { sys.link e c with
        records := t.records c
        acknowledged := t.shared.acknowledged c
        pending := (t.writers c).pending
        sending := (t.writers c).sending }) :
    Refines g lossy e c sys (sys.commit e t) := by
  have hconns := commit_conns e t sys
  refine refines_of_same h' hmid ⟨rfl, rfl, rfl, rfl, rfl, rfl⟩ ?_ (around_sent hm hevents _)
  refine ⟨?_, ?_, ?_, ?_, ?_, ?_, ?_⟩
  · simp [link, End.tx, End.onShared]
  · simp [link, End.tx, End.onShared]
  · simp [link, End.tx, End.onShared]
  · simp [link, End.tx, End.onShared]
  · simp [link]
  · simp [link, hconns.lanes]
  · simp [link, hconns.opened]

theorem got (h' : (sys.commit e t).Sound) (hc : c ∈ reliable)
    (hmid : ReflTransGen (Link.Step g.streams c lossy) (sys.link (!e) c)
      { sys.link (!e) c with toRx := t.rx c }) :
    Refines g lossy (!e) c sys (sys.commit e t) := by
  have hconns := commit_conns e t sys
  refine refines_of_same h' hmid ⟨rfl, rfl, rfl, rfl, rfl, rfl⟩ ?_ (around_got hm hc)
  refine ⟨?_, ?_, ?_, ?_, ?_, ?_, ?_⟩
  · simp [link]
  · simp [link]
  · simp [link]
  · simp [link]
  · simp only [link, Bool.not_not, commit_self]
    rfl
  · simp [link, hconns.lanes]
  · simp [link, hconns.opened]

theorem got_same (h' : (sys.commit e t).Sound) (hc : c ∈ reliable) (hrx : t.rx c = (sys.ends e).rx c) :
    Refines g lossy (!e) c sys (sys.commit e t) := by
  refine got hm h' hc ?_
  have hself : ({ sys.link (!e) c with toRx := (sys.ends e).rx c } : Link) = sys.link (!e) c := by
    simp [link]
  rw [hrx, hself]

theorem unchanged (h' : (sys.commit e t).Sound) (hc : c ∈ reliable)
    (hevents : ∀ id m, Event.received id m ∈ t.events ↔ Event.received id m ∈ (sys.ends e).events)
    (htx : t.records c = (sys.ends e).records c ∧
      t.shared.acknowledged c = (sys.ends e).shared.acknowledged c ∧
      (t.writers c).pending = ((sys.ends e).writers c).pending ∧
      (t.writers c).sending = ((sys.ends e).writers c).sending)
    (hrx : t.inbox.pending c = (sys.ends e).inbox.pending c ∧
      t.shared.received c = (sys.ends e).shared.received c ∧
      t.output.filterMap (deliveredOn c) = (sys.ends e).output.filterMap (deliveredOn c)) :
    Refines g lossy d c sys (sys.commit e t) := by
  rcases either d e with rfl | rfl
  · refine sent hm h' (fun id m => (hevents id m).mp) ?_
    rw [htx.1, htx.2.1, htx.2.2.1, htx.2.2.2]
    exact .refl
  · refine got_same hm h' hc ?_
    simp [End.rx, hevents, hrx.1, hrx.2.1, hrx.2.2]

end Commit

/-! ### The cases -/

variable {k : ℕ} {conn : Conn} {s : Shared} {c' : Channel} {m : Incoming}

theorem same_conns {α : Type}
    (hconns : sys'.conns = Function.update sys.conns k conn) (f : Conn → α)
    (h : f conn = f (sys.conns k)) (j : ℕ) : f (sys'.conns j) = f (sys.conns j) := by
  rw [hconns]
  by_cases hj : j = k
  · subst hj
    simpa using h
  · simp [hj]

theorem conn_refines (h' : (sys.setConn k conn).Sound)
    (hlanes : conn.lanes = (sys.conns k).lanes) (hopened : conn.opened = (sys.conns k).opened)
    (hpath : conn.pathId = (sys.conns k).pathId) (hbag : conn.bag = (sys.conns k).bag)
    (hclosed : (sys.conns k).closed.isSome → conn.closed.isSome) :
    Refines g lossy d c sys (sys.setConn k conn) := by
  have hconns : (sys.setConn k conn).conns = Function.update sys.conns k conn := rfl
  have hl := same_conns hconns (·.lanes) hlanes
  have ho := same_conns hconns (·.opened) hopened
  have hp := same_conns hconns (·.pathId) hpath
  have hb := same_conns hconns (·.bag) hbag
  have hcl := (Function.forall_update_iff sys.conns fun j (x : Conn) =>
    (sys.conns j).closed.isSome → x.closed.isSome).mpr ⟨hclosed, fun _ _ h => h⟩
  refine refines_of_same h' .refl ⟨rfl, rfl, rfl, rfl, rfl, rfl⟩
    ⟨rfl, rfl, rfl, rfl, rfl, ?_, ?_⟩ ⟨.refl _, hcl, fun j i hi => by rwa [hp], ?_⟩
  · simp [link, hl]
  · simp [link, ho]
  · rintro m (⟨j, hj⟩ | ⟨j, hj⟩ | hid)
    · rw [hb] at hj
      exact .inl (.inl ⟨j, hj⟩)
    · rw [ho] at hj
      exact .inl (.inr (.inl ⟨j, hj⟩))
    · exact .inl (.inr (.inr hid))

theorem attach_refines (h : sys.Sound) {native : Native} {id : ℕ}
    (ha : Attached (sys.host g e []) native (sys.ends e).shared s id) :
    Refines g lossy d c sys ((sys.commit e { sys.ends e with shared := s }).setConn native.conn
      (((sys.commit e { sys.ends e with shared := s }).conns native.conn).setPathId e id)) := by
  have h' := h.attach ha
  have hcalls : s.calls = [] := by
    rw [ha.eq]
    exact h.calm e
  have hclosed : (sys.conns native.conn).closed.isSome = false := ha.opened
  generalize hsys' : (sys.commit e { sys.ends e with shared := s }).setConn native.conn
    (((sys.commit e { sys.ends e with shared := s }).conns native.conn).setPathId e id) = sys' at h' ⊢
  obtain ⟨hconns, hself, hother⟩ := commit_setConn
    (f := fun conns => (conns native.conn).setPathId e id) hcalls hsys'.symm
  have hlanes := same_conns hconns (·.lanes) rfl
  have hopened := same_conns hconns (·.opened) rfl
  have hbag := same_conns hconns (·.bag) rfl
  have hshut := same_conns hconns (·.closed) rfl
  have hends : ∀ b, (sys'.ends b).records = (sys.ends b).records ∧
      (sys'.ends b).shared.acknowledged = (sys.ends b).shared.acknowledged ∧
      (sys'.ends b).writers = (sys.ends b).writers ∧
      (sys'.ends b).rx c = (sys.ends b).rx c ∧ (sys'.ends b).events = (sys.ends b).events ∧
      Keeps (sys.ends b).shared (sys'.ends b).shared := by
    intro b
    rcases either b e with rfl | rfl
    · rw [hself]
      refine ⟨rfl, by rw [ha.eq]; rfl, rfl, ?_, rfl, ⟨?_, ?_, ?_⟩⟩
      · rw [ha.eq]
        rfl
      · rw [ha.eq]
        exact le_rfl
      · exact fun _ => ha.live
      · exact fun _ _ => ha.selected (h.steady b)
    · rw [hother]
      exact ⟨rfl, rfl, rfl, rfl, rfl, .refl _⟩
  refine refines_of_same h' .refl ⟨rfl, rfl, rfl, rfl, rfl, rfl⟩
    ⟨?_, ?_, ?_, ?_, (hends !d).2.2.2.1, ?_, ?_⟩ ⟨(hends d).2.2.2.2.2, ?_, ?_, ?_⟩
  · simp [link, End.tx, (hends d).1]
  · simp [link, End.tx, (hends d).2.1]
  · simp [link, End.tx, (hends d).2.2.1]
  · simp [link, End.tx, (hends d).2.2.1]
  · simp [link, hlanes]
  · simp [link, hopened]
  · intro k hk
    rwa [hshut]
  · intro k i hi
    rw [hconns]
    by_cases hk : k = native.conn
    · subst hk
      rw [Function.update_self]
      rcases either d e with rfl | rfl
      · -- The connection was not attached at this end before.
        rcases h.attached d _ i hi with hc | ⟨kind, p, hp, hk⟩
        · rw [hclosed] at hc
          cases hc
        · exact absurd hk (ha.fresh kind p hp)
      · simpa [Conn.setPathId] using hi
    · rwa [Function.update_of_ne hk]
  · rintro m (⟨j, hj⟩ | ⟨j, hj⟩ | hid)
    · rw [hbag] at hj
      exact .inl (.inl ⟨j, hj⟩)
    · rw [hopened] at hj
      exact .inl (.inr (.inl ⟨j, hj⟩))
    · rw [(hends d).2.2.2.2.1] at hid
      exact .inl (.inr (.inr hid))

theorem wake_refines (h : sys.Sound) (hc : c ∈ reliable)
    (hlive : (sys.ends e).shared.shutdown = false)
    (h' : (sys.commit e ((sys.ends e).wake c')).Sound) :
    Refines g lossy d c sys (sys.commit e ((sys.ends e).wake c')) := by
  have hshared : ((sys.ends e).wake c').shared = (sys.ends e).shared := by
    unfold End.wake
    split <;> rfl
  have hm : Moves (fun _ => True) (sys.ends e).shared ((sys.ends e).wake c').shared :=
    .of_eq (h.calm e) (h.steady e) (by rw [hshared]) (by rw [hshared]) (.inl (by rw [hshared]))
      (by rw [hshared])
  have hrest : ((sys.ends e).wake c').records = (sys.ends e).records ∧
      ((sys.ends e).wake c').events = (sys.ends e).events ∧
      ((sys.ends e).wake c').inbox = (sys.ends e).inbox ∧
      ((sys.ends e).wake c').output = (sys.ends e).output := by
    unfold End.wake
    split <;> exact ⟨rfl, rfl, rfl, rfl⟩
  have hwriter : ((sys.ends e).wake c').writers = Function.update (sys.ends e).writers c'
      ((sys.ends e).shared.selected.elim
        (((sys.ends e).writers c').retire ((sys.ends e).shared.acknowledged c'))
        (((sys.ends e).writers c').retire ((sys.ends e).shared.acknowledged c')).attempt) := by
    cases hy : (sys.ends e).shared.selected with
    | none | some y =>
      simp only [End.wake, hy]
      rfl
  rcases either d e with rfl | rfl
  · refine sent hm h' (by rw [hrest.2.1]; exact fun _ _ h => h) ?_
    rw [hrest.1, hshared, hwriter]
    by_cases hcc : c = c'
    · subst hcc
      rw [Function.update_self]
      have hretire : Link.Step g.streams c lossy (sys.link d c) { sys.link d c with
          pending := (((sys.ends d).writers c).retire
            ((sys.ends d).shared.acknowledged c)).pending } := .retire
      cases hy : (sys.ends d).shared.selected with
      | none => exact .single hretire
      | some y =>
        dsimp only [Option.elim]
        unfold Writer.attempt
        split
        · exact .single hretire
        · rename_i hbusy
          rw [not_or] at hbusy
          split
          · exact .single hretire
          · rename_i p ps hmark
            refine .tail (.single hretire) ?_
            refine .attempt y p ps hlive hy ?_ hmark
            intro x hx hpath
            exact hbusy.1 (List.contains_iff_mem.mpr (List.mem_map.mpr ⟨x, hx, hpath⟩))
    · rw [Function.update_of_ne hcc]
      exact .refl
  · refine got_same hm h' hc ?_
    simp [End.rx, hrest, hshared]

theorem says_nothing {sequence epoch : ℕ} {payload : List UInt8}
    (h : parse m = .ok (.data sequence epoch payload)) (v : ℕ) : ¬ Says c v m := by
  rintro ⟨kind, nonce, bytes, hparse, -⟩
  rw [h] at hparse
  cases hparse

/-- Around a step that leaves the routes of the sender and the connections as
they are. -/
theorem around_quiet {n : ℕ} (hshared : (sys'.ends d).shared = (sys.ends d).shared)
    (hclosed : ∀ k, (sys'.conns k).closed = (sys.conns k).closed)
    (hpath : ∀ k, (sys'.conns k).pathId = (sys.conns k).pathId)
    (hunder : ∀ m, sys'.Under d m → sys.Under d m ∨ ∀ v, ¬ Says c v m) :
    Around sys sys' d c n where
  keeps := by
    rw [hshared]
    exact .refl _
  closed := fun k hk => by rwa [hclosed]
  ids := fun k i hi => by rwa [hpath]
  under := fun m hm => (hunder m hm).imp_right fun hno v hv => absurd hv (hno v)

theorem number_refines (h : sys.Sound) {request : Request} {rest : List Request}
    (hc : c ∈ reliable) (hroom : ((sys.ends e).writers c').pending.length < window)
    (hmax : (sys.ends e).shared.allocated c' + 1 ≠ 2 ^ 64)
    (hbound : ((sys.link d c).records).length < 2 ^ 64) (t : End)
    (ht : t = { sys.ends e with
      shared := (sys.ends e).shared.allocate c'
      writers := Function.update (sys.ends e).writers c'
        (((sys.ends e).writers c').number ((sys.ends e).shared.allocated c') request rest)
      records := Function.update (sys.ends e).records c'
        ((sys.ends e).records c' ++ [request]) })
    (h' : (sys.commit e t).Sound) :
    Refines g lossy d c sys (sys.commit e t) := by
  have hm : Moves (fun _ => True) (sys.ends e).shared t.shared := by
    subst ht
    exact .of_eq (h.calm e) (h.steady e) rfl rfl (.inl rfl) rfl
  rcases either d e with rfl | rfl
  · refine sent hm h' (by subst ht; exact fun _ _ h => h) ?_
    by_cases hcc : c = c'
    · subst hcc ht
      have hlen := h.allocated d c hc
      have hstep : Link.Step g.streams c lossy (sys.link d c) { sys.link d c with
          records := (sys.link d c).records ++ [request]
          pending := (sys.link d c).pending ++
            [⟨(sys.link d c).records.length, request, fun _ => none⟩] } := by
        refine .number request hroom ?_
        have hlt : ((sys.ends d).records c).length < 2 ^ 64 := hbound
        show ((sys.ends d).records c).length + 1 < 2 ^ 64
        omega
      have hseq : (sys.link d c).records.length = (sys.ends d).shared.allocated c := hlen.symm
      rw [hseq] at hstep
      simp only [Function.update_self]
      exact .single hstep
    · subst ht
      simp only [Function.update_of_ne hcc]
      exact .refl
  · refine got_same hm h' hc ?_
    subst ht
    rfl

theorem sealCopy_refines (h : sys.Sound) {i : ℕ} {x : Copy}
    (hx : ((sys.ends e).writers c').sending[i]? = some ⟨x, false⟩)
    (hroom : c'.isStreamPerMessage → ((sys.conns x.conn).lanes e c').flight.length < g.streams)
    (t : End) (ht : t = (sys.ends e).setWriter c' { (sys.ends e).writers c' with
      sending := ((sys.ends e).writers c').sending.set i ⟨x, true⟩ })
    (hsys' : sys' = (sys.commit e t).setConn x.conn
      (((sys.commit e t).conns x.conn).setLane e c' (((sys.conns x.conn).lanes e c').push x)))
    (h' : sys'.Sound) :
    Refines g lossy d c sys sys' := by
  have hcalls : t.shared.calls = [] := by
    subst ht
    exact h.calm e
  obtain ⟨hconns, hself, hother⟩ := commit_setConn
    (f := fun conns => (conns x.conn).setLane e c' (((sys.conns x.conn).lanes e c').push x))
    hcalls hsys'
  have hclosed := same_conns hconns (·.closed) rfl
  have hpath := same_conns hconns (·.pathId) rfl
  have hopened := same_conns hconns (·.opened) rfl
  have hbag := same_conns hconns (·.bag) rfl
  have hends : ∀ b, (sys'.ends b).shared = (sys.ends b).shared ∧
      (sys'.ends b).events = (sys.ends b).events ∧ (sys'.ends b).rx c = (sys.ends b).rx c ∧
      (sys'.ends b).records = (sys.ends b).records := by
    intro b
    rcases either b e with rfl | rfl
    · rw [hself, ht]
      exact ⟨rfl, rfl, rfl, rfl⟩
    · rw [hother]
      exact ⟨rfl, rfl, rfl, rfl⟩
  have haround : ∀ n, Around sys sys' d c n := fun n => by
    refine around_quiet (hends d).1 hclosed hpath fun m hm => .inl ?_
    simpa only [Under, hbag, hopened, (hends d).2.1] using hm
  have hopens : (sys'.link d c).opened = (sys.link d c).opened := by simp [link, hopened]
  by_cases hcase : d = e ∧ c = c'
  · obtain ⟨rfl, rfl⟩ := hcase
    refine refines_of_same h' (.single (.sealCopy i x hx hroom)) ⟨rfl, rfl, rfl, rfl, rfl, rfl⟩
      ⟨?_, ?_, ?_, ?_, (hends !d).2.2.1, ?_, hopens⟩ (haround _)
    · simp [link, End.tx, (hends d).2.2.2]
    · simp [link, End.tx, (hends d).1]
    · simp [link, End.tx, hself, ht, End.setWriter]
    · simp [link, End.tx, hself, ht, End.setWriter]
    · funext k
      by_cases hk : k = x.conn
      · subst hk
        simp [link, hconns, Conn.setLane]
      · simp [link, hconns, hk]
  · have hwriters : (sys'.ends d).writers c = (sys.ends d).writers c := by
      rcases either d e with rfl | rfl
      · have hcc : c ≠ c' := fun hcc => hcase ⟨rfl, hcc⟩
        simp [hself, ht, End.setWriter, hcc]
      · rw [hother]
    have hlanes : ∀ k, (sys'.conns k).lanes d c = (sys.conns k).lanes d c := by
      refine same_conns hconns (·.lanes d c) ?_
      rcases either d e with rfl | rfl
      · have hcc : c ≠ c' := fun hcc => hcase ⟨rfl, hcc⟩
        simp [Conn.setLane, hcc]
      · simp [Conn.setLane]
    refine refines_of_same h' .refl ⟨rfl, rfl, rfl, rfl, rfl, rfl⟩
      ⟨?_, ?_, ?_, ?_, (hends !d).2.2.1, ?_, hopens⟩ (haround _)
    · simp [link, End.tx, (hends d).2.2.2]
    · simp [link, End.tx, (hends d).1]
    · simp [link, End.tx, hwriters]
    · simp [link, End.tx, hwriters]
    · simp [link, hlanes]

/-- What an end keeps in a step that touches a connection and the end's events. -/
structure SameEnd (c : Channel) (t t' : End) : Prop where
  keeps : Keeps t.shared t'.shared
  records : t'.records c = t.records c
  acknowledged : t'.shared.acknowledged c = t.shared.acknowledged c
  writers : t'.writers c = t.writers c
  held : t'.inbox.pending c = t.inbox.pending c
  received : t'.shared.received c = t.shared.received c
  output : t'.output = t.output

theorem SameEnd.refl (c : Channel) (t : End) : SameEnd c t t :=
  ⟨.refl _, rfl, rfl, rfl, rfl, rfl, rfl⟩

theorem touch_refines (h' : sys'.Sound)
    (hconns : sys'.conns = Function.update sys.conns k conn) (hends : ∀ b, SameEnd c (sys.ends b) (sys'.ends b))
    (hclosed : conn.closed = (sys.conns k).closed) (hpath : conn.pathId = (sys.conns k).pathId)
    (hunder : ∀ m, sys'.Under d m → sys.Under d m ∨ ∀ v, ¬ Says c v m)
    (hmid : ReflTransGen (Link.Step g.streams c lossy) (sys.link d c) { sys.link d c with
      lanes := fun j => (sys'.conns j).lanes d c
      opened := fun j => {m | m.channel = c ∧ .ok m ∈ (sys'.conns j).opened (!d)}
      queued := {m | m.channel = c ∧ ∃ id, Event.received id m ∈ (sys'.ends !d).events} }) :
    Refines g lossy d c sys sys' := by
  refine refines_of_same h' hmid ⟨rfl, rfl, rfl, rfl, rfl, rfl⟩ ⟨?_, ?_, ?_, ?_, ?_, rfl, rfl⟩
    ⟨(hends d).keeps, ?_, ?_, ?_⟩
  · exact (hends d).records
  · exact (hends d).acknowledged
  · simp [link, End.tx, (hends d).writers]
  · simp [link, End.tx, (hends d).writers]
  · simp [link, End.rx, (hends _).held, (hends _).received, (hends _).output]
  · intro j hj
    rwa [same_conns hconns (·.closed) hclosed]
  · intro j i hi
    rwa [same_conns hconns (·.pathId) hpath]
  · exact fun m hm => (hunder m hm).imp_right fun hno v hv => absurd hv (hno v)

theorem mediaSent_refines (h : sys.Sound) (hvalue : ∀ v, ¬ Says c v m) (t : End)
    (ht : t = { sys.ends e with shared := (sys.ends e).shared.allocate c' })
    (hsys' : sys' = (sys.commit e t).setConn k (((sys.commit e t).conns k).addToBag e m))
    (h' : sys'.Sound) :
    Refines g lossy d c sys sys' := by
  have hcalls : t.shared.calls = [] := by
    subst ht
    exact h.calm e
  obtain ⟨hconns, hself, hother⟩ := commit_setConn (f := fun conns => (conns k).addToBag e m)
    hcalls hsys'
  have hends : ∀ b, SameEnd c (sys.ends b) (sys'.ends b) ∧
      (sys'.ends b).events = (sys.ends b).events := by
    intro b
    rcases either b e with rfl | rfl
    · rw [hself, ht]
      exact ⟨⟨⟨le_rfl, fun h => h, fun _ _ => rfl⟩, rfl, rfl, rfl, rfl, rfl, rfl⟩, rfl⟩
    · rw [hother]
      exact ⟨.refl c _, rfl⟩
  have hlanes := same_conns hconns (·.lanes) rfl
  have hopened := same_conns hconns (·.opened) rfl
  refine touch_refines h' hconns (fun b => (hends b).1) rfl rfl ?_ ?_
  · rintro m' (⟨j, hj⟩ | ⟨j, hj⟩ | ⟨id, hid⟩)
    · rw [hconns] at hj
      by_cases hjk : j = k
      · subst hjk
        rw [Function.update_self] at hj
        simp only [Conn.addToBag] at hj
        by_cases hde : (!d) = e
        · rw [hde, Function.update_self] at hj
          rcases List.mem_append.mp hj with hj | hj
          · exact .inl (.inl ⟨j, by rwa [hde]⟩)
          · obtain rfl := List.mem_singleton.mp hj
            exact .inr hvalue
        · rw [Function.update_of_ne hde] at hj
          exact .inl (.inl ⟨j, hj⟩)
      · rw [Function.update_of_ne hjk] at hj
        exact .inl (.inl ⟨j, hj⟩)
    · rw [hopened] at hj
      exact .inl (.inr (.inl ⟨j, hj⟩))
    · rw [(hends d).2] at hid
      exact .inl (.inr (.inr ⟨id, hid⟩))
  · simp only [hlanes, hopened, (hends _).2]
    exact .refl

theorem opened_refines {r : Except TransportError Incoming}
    (h' : (sys.setConn k conn).Sound) (hclosed : conn.closed = (sys.conns k).closed)
    (hpath : conn.pathId = (sys.conns k).pathId) (hbag : conn.bag = (sys.conns k).bag)
    (hopened : conn.opened = Function.update (sys.conns k).opened (!e)
      ((sys.conns k).opened (!e) ++ [r]))
    (hr : ∀ m, r = .ok m → m ∈ (sys.conns k).bag e ∨ ∀ v, ¬ Says c v m)
    (hmid : ReflTransGen (Link.Step g.streams c lossy) (sys.link d c) { sys.link d c with
      lanes := fun j => ((sys.setConn k conn).conns j).lanes d c
      opened := fun j => {m | m.channel = c ∧ .ok m ∈ ((sys.setConn k conn).conns j).opened (!d)} }) :
    Refines g lossy d c sys (sys.setConn k conn) := by
  have hconns : (sys.setConn k conn).conns = Function.update sys.conns k conn := rfl
  have hb := same_conns hconns (·.bag) hbag
  refine touch_refines h' hconns (fun _ => .refl c _) hclosed hpath ?_ hmid
  rintro m (⟨j, hj⟩ | ⟨j, hj⟩ | hid)
  · rw [hb] at hj
    exact .inl (.inl ⟨j, hj⟩)
  · rw [hconns] at hj
    by_cases hjk : j = k
    · subst hjk
      rw [Function.update_self, hopened] at hj
      by_cases hde : d = !e
      · subst hde
        rw [Function.update_self] at hj
        rcases List.mem_append.mp hj with hj | hj
        · exact .inl (.inr (.inl ⟨j, hj⟩))
        · refine (hr m (List.mem_singleton.mp hj).symm).imp_left fun hm => .inl ⟨j, ?_⟩
          rwa [Bool.not_not]
      · rw [Function.update_of_ne hde] at hj
        exact .inl (.inr (.inl ⟨j, hj⟩))
    · rw [Function.update_of_ne hjk] at hj
      exact .inl (.inr (.inl ⟨j, hj⟩))
  · exact .inl (.inr (.inr hid))

theorem lossy_refines (h : sys.Sound) (hc : c ∈ reliable) (hm : m ∈ (sys.conns k).bag e)
    (h' : (sys.setConn k ((sys.conns k).setOpened (!e) ((sys.conns k).opened (!e) ++ [.ok m]))).Sound) :
    Refines g lossy d c sys
      (sys.setConn k ((sys.conns k).setOpened (!e) ((sys.conns k).opened (!e) ++ [.ok m]))) := by
  refine opened_refines h' rfl rfl rfl rfl
    (fun m' hm' => .inl (by rw [← Except.ok.inj hm']; exact hm)) ?_
  have hlanes : ∀ j, ((sys.setConn k ((sys.conns k).setOpened (!e)
      ((sys.conns k).opened (!e) ++ [.ok m]))).conns j).lanes = (sys.conns j).lanes := by
    have hconns : (sys.setConn k ((sys.conns k).setOpened (!e)
        ((sys.conns k).opened (!e) ++ [.ok m]))).conns = Function.update sys.conns k _ := rfl
    exact same_conns hconns (·.lanes) rfl
  have hopened : ∀ j, {m' | m'.channel = c ∧ .ok m' ∈ ((sys.setConn k ((sys.conns k).setOpened (!e)
      ((sys.conns k).opened (!e) ++ [.ok m]))).conns j).opened (!d)} = (sys.link d c).opened j := by
    intro j
    ext m'
    show _ ∧ _ ↔ _ ∧ _
    refine and_congr_right fun hch => ?_
    by_cases hj : j = k
    · subst hj
      have hne : m' ≠ m := by
        rintro rfl
        exact h.bag e j m' hm (hch ▸ hc)
      by_cases hde : d = e
      · subst hde
        simp [System.setConn, Conn.setOpened, hne]
      · have : (!d) ≠ (!e) := by simpa using hde
        simp [System.setConn, Conn.setOpened, Function.update_of_ne this]
    · simp [System.setConn, hj]
  simp only [hlanes, hopened]
  exact .refl

theorem arrive_refines {k n : ℕ} {x : Copy}
    (hx : ((sys.conns k).lanes e c').log[n]? = some x) (hopen : (sys.conns k).closed = none)
    (harrives : ((sys.conns k).lanes e c').arrives c' n = true)
    (r : Except TransportError Incoming)
    (hr : r = match (((sys.conns k).lanes e c').take c' n x).1 with
      | .ok x => .ok (x.message c' n)
      | .error error => .error (.crypto error))
    (conn : Conn) (hconn : conn = ((sys.conns k).setLane e c'
      (((sys.conns k).lanes e c').take c' n x).2).setOpened (!e) ((sys.conns k).opened (!e) ++ [r]))
    (h' : (sys.setConn k conn).Sound) :
    Refines g lossy d c sys (sys.setConn k conn) := by
  have hmsg : ∀ m, r = .ok m → m = x.message c' n := by
    intro m hm
    rw [hr] at hm
    split at hm
    · rename_i y hy
      obtain rfl := Link.take_ok hy
      exact (Except.ok.inj hm).symm
    · cases hm
  refine opened_refines h' (by rw [hconn]; rfl) (by rw [hconn]; rfl) (by rw [hconn]; rfl)
    (by rw [hconn]; rfl) (fun m hm => .inr ?_) ?_
  · rw [hmsg m hm]
    exact says_nothing (parse_envelope _ _ _ _ _)
  by_cases hcase : d = e ∧ c = c'
  · obtain ⟨rfl, rfl⟩ := hcase
    have hstep : Link.Step g.streams c lossy (sys.link d c) _ :=
      .arrive k n x hx (by simp [link, hopen]) harrives
    refine .single (Eq.subst (motive := fun l => Link.Step g.streams c lossy (sys.link d c) l) ?_ hstep)
    have hlanes : Function.update (sys.link d c).lanes k (((sys.link d c).lanes k).take c n x).2 =
        fun j => ((sys.setConn k conn).conns j).lanes d c := by
      funext j
      by_cases hj : j = k
      · subst hj
        simp [System.setConn, hconn, Conn.setOpened, Conn.setLane, link]
      · simp [System.setConn, hj, link]
    have hopened : Function.update (sys.link d c).opened k
        (Link.arrived c n ((sys.link d c).opened k) (((sys.link d c).lanes k).take c n x).1) =
        fun j => {m | m.channel = c ∧ .ok m ∈ ((sys.setConn k conn).conns j).opened (!d)} := by
      funext j
      by_cases hj : j = k
      · subst hj
        rw [Function.update_self]
        ext m
        have hmem : (Except.ok m ∈ (conn.opened (!d))) ↔
            .ok m ∈ (sys.conns j).opened (!d) ∨ .ok m = r := by
          rw [hconn]
          simp [Conn.setOpened]
        have hlane : ((sys.link d c).lanes j).take c n x = ((sys.conns j).lanes d c).take c n x := rfl
        simp only [System.setConn, Function.update_self, hlane]
        show _ ↔ m.channel = c ∧ _
        rw [hmem, hr]
        cases hres : (((sys.conns j).lanes d c).take c n x).1 with
        | ok y =>
          have hchan : (y.message c n).channel = c := rfl
          show m ∈ insert _ _ ↔ m.channel = c ∧ (_ ∨ Except.ok m = Except.ok _)
          simp only [Except.ok.injEq, Set.mem_insert_iff]
          constructor
          · rintro (rfl | hm)
            · exact ⟨hchan, .inr rfl⟩
            · exact ⟨hm.1, .inl hm.2⟩
          · rintro ⟨hm, hin | rfl⟩
            · exact .inr ⟨hm, hin⟩
            · exact .inl rfl
        | error error => simp [Link.arrived, link]
      · simp [System.setConn, hj, link]
    rw [hlanes, hopened]
  · have hlanes : (fun j => ((sys.setConn k conn).conns j).lanes d c) = (sys.link d c).lanes := by
      funext j
      have hconns : (sys.setConn k conn).conns = Function.update sys.conns k conn := rfl
      refine same_conns hconns (·.lanes d c) ?_ j
      rw [hconn]
      rcases either d e with rfl | rfl
      · have hcc : c ≠ c' := fun hcc => hcase ⟨rfl, hcc⟩
        simp [Conn.setOpened, Conn.setLane, hcc]
      · simp [Conn.setOpened, Conn.setLane]
    have hopened : (fun j => {m | m.channel = c ∧
        .ok m ∈ ((sys.setConn k conn).conns j).opened (!d)}) = (sys.link d c).opened := by
      funext j
      ext m
      show _ ∧ _ ↔ _ ∧ _
      refine and_congr_right fun hch => ?_
      by_cases hj : j = k
      · subst hj
        rcases either d e with rfl | rfl
        · have hcc : c ≠ c' := fun hcc => hcase ⟨rfl, hcc⟩
          have hne : Except.ok m ≠ r := by
            intro hm
            have := hmsg m hm.symm
            rw [this] at hch
            exact hcc hch.symm
          simp [System.setConn, hconn, Conn.setOpened, Conn.setLane, hne]
        · simp [System.setConn, hconn, Conn.setOpened, Conn.setLane]
      · simp [System.setConn, hj]
    rw [hlanes, hopened]

theorem forward_refines (h : sys.Sound) {k i id : ℕ} {r : Except TransportError Incoming}
    (hr : ((sys.conns k).opened e)[i]? = some r) (t : End)
    (ht : t = { sys.ends e with events := (sys.ends e).events ++ [event id r] })
    (hsys' : sys' = (sys.commit e t).setConn k
      ((sys.conns k).setOpened e (((sys.conns k).opened e).eraseIdx i))) (h' : sys'.Sound) :
    Refines g lossy d c sys sys' := by
  have hcalls : t.shared.calls = [] := by
    subst ht
    exact h.calm e
  obtain ⟨hconns, hself, hother⟩ := commit_setConn
    (f := fun _ => (sys.conns k).setOpened e (((sys.conns k).opened e).eraseIdx i)) hcalls hsys'
  have hmem := List.mem_of_getElem? hr
  have hevent : ∀ id' m, Event.received id' m = event id r → r = .ok m := by
    intro id' m hm
    cases r with
    | ok m' => exact congrArg _ (Event.received.inj hm).2.symm
    | error error => cases hm
  have hevents : ∀ id' m, Event.received id' m ∈ (sys'.ends e).events ↔
      Event.received id' m ∈ (sys.ends e).events ∨ Event.received id' m = event id r := by
    intro id' m
    rw [hself, ht]
    simp
  have hends : ∀ b, SameEnd c (sys.ends b) (sys'.ends b) := by
    intro b
    rcases either b e with rfl | rfl
    · rw [hself, ht]
      exact ⟨.refl _, rfl, rfl, rfl, rfl, rfl, rfl⟩
    · rw [hother]
      exact .refl c _
  have hbag := same_conns hconns (·.bag) rfl
  have hlanes := same_conns hconns (·.lanes) rfl
  refine touch_refines h' hconns hends rfl rfl ?_ ?_
  · rintro m (⟨j, hj⟩ | ⟨j, hj⟩ | ⟨id', hid⟩)
    · rw [hbag] at hj
      exact .inl (.inl ⟨j, hj⟩)
    · refine .inl (.inr (.inl ⟨j, ?_⟩))
      rw [hconns] at hj
      by_cases hjk : j = k
      · subst hjk
        rw [Function.update_self] at hj
        simp only [Conn.setOpened] at hj
        by_cases hde : d = e
        · subst hde
          rw [Function.update_self] at hj
          exact List.mem_of_mem_eraseIdx hj
        · rwa [Function.update_of_ne hde] at hj
      · rwa [Function.update_of_ne hjk] at hj
    · rcases either d e with rfl | rfl
      · rcases (hevents id' m).mp hid with hid | hid
        · exact .inl (.inr (.inr ⟨id', hid⟩))
        · exact .inl (.inr (.inl ⟨k, hevent id' m hid ▸ hmem⟩))
      · rw [hother] at hid
        exact .inl (.inr (.inr ⟨id', hid⟩))
  · simp only [hlanes]
    by_cases hcase : d = (!e) ∧ ∃ m, r = .ok m ∧ m.channel = c
    · obtain ⟨rfl, m, rfl, hch⟩ := hcase
      have hstep : Link.Step g.streams c lossy (sys.link (!e) c) _ :=
        .forward k m {m' | m'.channel = c ∧ .ok m' ∈ ((sys.conns k).opened e).eraseIdx i}
          ⟨⟨hch, by rwa [Bool.not_not]⟩, ?_, ?_⟩
      · refine .single (Eq.subst
          (motive := fun l => Link.Step g.streams c lossy (sys.link (!e) c) l) ?_ hstep)
        have hopened : Function.update (sys.link (!e) c).opened k
            {m' | m'.channel = c ∧ .ok m' ∈ ((sys.conns k).opened e).eraseIdx i} =
            fun j => {m' | m'.channel = c ∧ .ok m' ∈ (sys'.conns j).opened (!!e)} := by
          funext j
          by_cases hj : j = k
          · subst hj
            simp [hconns, Conn.setOpened]
          · simp [hconns, hj, link]
        have hqueued : insert m (sys.link (!e) c).queued = {m' | m'.channel = c ∧
            ∃ id, Event.received id m' ∈ (sys'.ends !!e).events} := by
          ext m'
          rw [Bool.not_not]
          show m' = m ∨ _ ↔ m'.channel = c ∧ _
          simp only [hevents]
          constructor
          · rintro (rfl | ⟨hm', id', hid⟩)
            · exact ⟨hch, id, .inr rfl⟩
            · rw [Bool.not_not] at hid
              exact ⟨hm', id', .inl hid⟩
          · rintro ⟨hm', id', hid | hid⟩
            · refine .inr ⟨hm', id', ?_⟩
              rwa [Bool.not_not]
            · exact .inl (Except.ok.inj (hevent id' m' hid)).symm
        rw [hopened, hqueued]
        rfl
      · rintro m' ⟨hm', hin⟩
        refine ⟨hm', ?_⟩
        rw [Bool.not_not]
        exact List.mem_of_mem_eraseIdx hin
      · rintro m' ⟨hm', hin⟩ hne
        rw [Bool.not_not] at hin
        refine ⟨hm', (List.mem_eraseIdx_iff_getElem?).mpr ?_⟩
        obtain ⟨j, hj⟩ := List.getElem?_of_mem hin
        refine ⟨j, ?_, hj⟩
        rintro rfl
        rw [hr] at hj
        exact hne (Except.ok.inj (Option.some.inj hj)).symm
    · have hopened : (fun j => {m | m.channel = c ∧ .ok m ∈ (sys'.conns j).opened (!d)}) =
          (sys.link d c).opened := by
        funext j
        ext m
        show _ ∧ _ ↔ _ ∧ _
        refine and_congr_right fun hch => ?_
        rw [hconns]
        by_cases hj : j = k
        · subst hj
          rcases either d e with rfl | rfl
          · simp [Conn.setOpened]
          · have hne : r ≠ .ok m := fun hrm => hcase ⟨rfl, m, hrm, hch⟩
            simp only [Bool.not_not, Function.update_self, Conn.setOpened]
            constructor
            · exact List.mem_of_mem_eraseIdx
            · intro hin
              obtain ⟨j', hj'⟩ := List.getElem?_of_mem hin
              refine (List.mem_eraseIdx_iff_getElem?).mpr ⟨j', ?_, hj'⟩
              rintro rfl
              rw [hr] at hj'
              exact hne (Option.some.inj hj')
        · simp [hj]
      have hqueued : {m | m.channel = c ∧ ∃ id, Event.received id m ∈ (sys'.ends !d).events} =
          (sys.link d c).queued := by
        ext m
        show _ ∧ _ ↔ _ ∧ _
        refine and_congr_right fun hch => ?_
        rcases either d e with rfl | rfl
        · rw [hother]
        · simp only [Bool.not_not, hevents]
          have hne : ∀ id', Event.received id' m ≠ event id r := fun id' hm =>
            hcase ⟨rfl, m, hevent id' m hm, hch⟩
          simp [hne]
      rw [hopened, hqueued]
      exact .refl

/-- A copy that arrives is dropped at the inbox, or its path fails with it. -/
def Loses (sys : System) : Prop :=
  ∃ e id m rest h, (sys.ends e).events = .received id m :: rest ∧ m.channel ∈ reliable ∧
    ((End.receive h id m { sys.ends e with events := rest }).2 ≠ .ok () ∨
      ∃ sequence epoch payload, parse m = .ok (.data sequence epoch payload) ∧
        (sys.ends e).shared.received m.channel ≤ sequence ∧
        sequence ∉ ((sys.ends e).inbox.pending m.channel).map Prod.fst ∧
        byteWindow * reliable.length < (sys.ends e).inbox.bytes + payload.length)

theorem complete_refines (h : sys.Sound) {i : ℕ} {x : Sending}
    (hc : c ∈ reliable) (hx : ((sys.ends e).writers c').sending[i]? = some x)
    (hdone : x.isSealed = true ∨ (sys.conns x.copy.conn).closed.isSome)
    (hs : Steers P (sys.ends e).shared s) (t : End)
    (ht : t = { (sys.ends e).setWriter c' (((sys.ends e).writers c').complete i) with shared := s })
    (h' : (sys.commit e t).Sound) :
    Refines g lossy d c sys (sys.commit e t) := by
  have hm : Moves P (sys.ends e).shared t.shared := by
    subst ht
    exact h.moves rfl rfl rfl rfl hs
  have hack : t.shared.acknowledged c = (sys.ends e).shared.acknowledged c := by
    subst ht
    exact congrFun hs.acknowledged c
  rcases either d e with rfl | rfl
  · refine sent hm h' (by subst ht; exact fun _ _ h => h) ?_
    rw [hack]
    by_cases hcc : c = c'
    · subst hcc ht
      have hstep : Link.Step g.streams c lossy (sys.link d c) { sys.link d c with
          sending := (sys.link d c).sending.eraseIdx i } := by
        refine .complete i fun y hy => ?_
        have hyx : some x = some y := hx.symm.trans hy
        cases hyx
        exact hdone
      simp only [End.setWriter, Function.update_self]
      exact .single hstep
    · subst ht
      simp only [End.setWriter, Function.update_of_ne hcc]
      exact .refl
  · refine got_same hm h' hc ?_
    subst ht
    simp [End.rx, End.setWriter, hs.received]

theorem received_sent (h : sys.Sound) {id : ℕ} {rest : List Event} {t : End}
    {r : Except TransportError Unit}
    (hevents : (sys.ends e).events = .received id m :: rest)
    (ht : Received P { sys.ends e with events := rest } m (t, r)) (hs : Steers P t.shared s)
    (h' : (sys.commit e { t with shared := s }).Sound) :
    Refines g lossy e c sys (sys.commit e { t with shared := s }) := by
  obtain ⟨a, hst, hcounts⟩ := ht.shared
  have hall := hst.trans hs
  have hm := h.moves (r := (sys.ends e).shared.withAcks a) rfl rfl rfl rfl hall
  refine sent hm h' (fun id' m' hin => ?_) ?_
  · rw [show ({ t with shared := s } : End).events = rest from ht.events] at hin
    rw [hevents]
    exact List.mem_cons_of_mem _ hin
  · have hack : s.acknowledged c = a c := congrFun hall.acknowledged c
    rw [show ({ t with shared := s } : End).records = (sys.ends e).records from ht.records,
      show ({ t with shared := s } : End).writers = (sys.ends e).writers from ht.writers, hack]
    rcases hcounts c with ha | ⟨v, hv, ha⟩
    · rw [ha]
      exact .refl
    · rw [ha]
      have hack : v ∈ (sys.link e c).acks := by
        refine ⟨m, .inr (.inr ⟨id, ?_⟩), hv⟩
        rw [hevents]
        exact List.mem_cons_self
      exact .single (.acknowledge v hack)

theorem received_got (h : sys.Sound) (hg : (sys.link (!e) c).Genuine c) (hloses : sys.Loses → lossy)
    {id : ℕ} {rest : List Event} {t : End} {r : Except TransportError Unit}
    (hc : c ∈ reliable) (hevents : (sys.ends e).events = .received id m :: rest)
    (ht : Received P { sys.ends e with events := rest } m (t, r))
    (hres : ∃ h, End.receive h id m { sys.ends e with events := rest } = (t, r))
    (hs : Steers P t.shared s) (h' : (sys.commit e { t with shared := s }).Sound) :
    Refines g lossy (!e) c sys (sys.commit e { t with shared := s }) := by
  obtain ⟨a, hst, -⟩ := ht.shared
  have hall := hst.trans hs
  have hm := h.moves (r := (sys.ends e).shared.withAcks a) rfl rfl rfl rfl hall
  have hrx : ({ t with shared := s } : End).rx c =
      { (sys.ends e).rx c with
        queued := {m' | m'.channel = c ∧ ∃ id, Event.received id m' ∈ rest}
        held := t.inbox.pending c } := by
    have hr : s.received c = (sys.ends e).shared.received c := congrFun hall.received c
    have hev : t.events = rest := ht.events
    simp only [End.rx, hr, ht.output c hc, hev]
  have hin : ∀ m', (∃ id', Event.received id' m' ∈ (sys.ends e).events) ↔
      m' = m ∨ ∃ id', Event.received id' m' ∈ rest := by
    intro m'
    rw [hevents]
    constructor
    · rintro ⟨id', hid⟩
      rcases List.mem_cons.mp hid with hid | hid
      · exact .inl (Event.received.inj hid).2
      · exact .inr ⟨id', hid⟩
    · rintro (rfl | ⟨id', hid⟩)
      · exact ⟨id, List.mem_cons_self⟩
      · exact ⟨id', List.mem_cons_of_mem _ hid⟩
  by_cases hch : m.channel = c
  · -- A copy of a record of this channel.
    refine got hm h' hc ?_
    have hmem : m ∈ (sys.link (!e) c).queued := by
      refine ⟨hch, ?_⟩
      rw [Bool.not_not, hin]
      exact .inl rfl
    obtain ⟨sequence, hcarries⟩ := hg.queued m hmem
    obtain ⟨epoch, record, -, -, hparse, -⟩ := hcarries.parse hg.bound
    rw [hrx]
    have htaken : TakenOut m (sys.link (!e) c).queued
        {m' | m'.channel = c ∧ ∃ id, Event.received id m' ∈ rest} := by
      refine ⟨hmem, ?_, ?_⟩
      · rintro m' ⟨hm', hid⟩
        refine ⟨hm', ?_⟩
        rw [Bool.not_not, hin]
        exact .inr hid
      · rintro m' ⟨hm', hid⟩ hne
        rw [Bool.not_not, hin] at hid
        exact ⟨hm', hid.resolve_left hne⟩
    have hself : (sys.link (!e) c).toRx = (sys.ends e).rx c := by simp [link]
    have hheld : (sys.link (!e) c).held = (sys.ends e).inbox.pending c := by rw [hself]; rfl
    have hrec : (sys.link (!e) c).received = (sys.ends e).shared.received c := by rw [hself]; rfl
    have hkept : (t.inbox.pending c = (sys.ends e).inbox.pending c ∧
          (sequence < (sys.ends e).shared.received c ∨
            sequence ∈ ((sys.ends e).inbox.pending c).map Prod.fst ∨ lossy)) ∨
        ((sys.ends e).shared.received c ≤ sequence ∧
          sequence ∉ ((sys.ends e).inbox.pending c).map Prod.fst ∧
          t.inbox.pending c =
            (sequence, ⟨c, { m.header with seq := UInt32.ofNat sequence }, record.payload⟩) ::
              (sys.ends e).inbox.pending c) := by
      cases ht.inbox with
      | insert sequence' epoch' payload' hc' hparse' hle hnew _ hpending _ =>
        rw [hparse] at hparse'
        cases hparse'
        rw [hch] at hle hnew hpending
        refine .inr ⟨hle, hnew, ?_⟩
        rw [hpending, Function.update_self, unwrap, hch]
      | same _ hpending _ hwhy =>
        refine .inl ⟨congrFun hpending c, ?_⟩
        rw [hch] at hwhy
        by_cases hlt : sequence < (sys.ends e).shared.received c
        · exact .inl hlt
        by_cases hin : sequence ∈ ((sys.ends e).inbox.pending c).map Prod.fst
        · exact .inr (.inl hin)
        rcases hwhy _ _ _ hc hparse with hlt' | hin' | herr | hbytes
        · exact absurd hlt' hlt
        · exact absurd hin' hin
        · obtain ⟨host, hrecv⟩ := hres
          refine .inr (.inr (hloses ⟨e, id, m, rest, host, hevents, hch ▸ hc, .inl ?_⟩))
          rw [hrecv]
          exact herr
        · obtain ⟨host, -⟩ := hres
          exact .inr (.inr (hloses ⟨e, id, m, rest, host, hevents, hch ▸ hc, .inr
            ⟨_, _, _, hparse, by rw [hch]; exact Nat.le_of_not_lt hlt, by rw [hch]; exact hin, hbytes⟩⟩))
    rw [← hheld, ← hrec] at hkept
    have hstep : Link.Step g.streams c lossy (sys.link (!e) c) _ :=
      .absorb m _ htaken sequence epoch _ hparse _ hkept
    have heq : ({ sys.link (!e) c with
        queued := {m' | m'.channel = c ∧ ∃ id, Event.received id m' ∈ rest}
        held := t.inbox.pending c } : Link) = { sys.link (!e) c with
          toRx := { (sys.ends e).rx c with
            queued := {m' | m'.channel = c ∧ ∃ id, Event.received id m' ∈ rest}
            held := t.inbox.pending c } } := by
      rw [← hself]
    rw [heq] at hstep
    exact .single hstep
  · refine got_same hm h' hc ?_
    rw [hrx]
    have hqueued : {m' | m'.channel = c ∧ ∃ id, Event.received id m' ∈ rest} =
        ((sys.ends e).rx c).queued := by
      ext m'
      show _ ∧ _ ↔ _ ∧ _
      refine and_congr_right fun hm' => ?_
      have hne : m' ≠ m := by
        rintro rfl
        exact hch hm'
      simp [hin, hne]
    have hheld : t.inbox.pending c = ((sys.ends e).rx c).held := by
      cases ht.inbox with
      | insert _ _ _ _ _ _ _ _ hpending _ =>
        rw [hpending, Function.update_of_ne (Ne.symm hch)]
        rfl
      | same _ hpending _ _ => exact congrFun hpending c
    rw [hqueued, hheld]

theorem deliver_refines (h : sys.Sound) {inbox : Inbox} (hc : c ∈ reliable) (hch : m.channel = c')
    (hm : ((sys.ends e).inbox.pending c').lookup ((sys.ends e).shared.received c') = some m)
    (hpending : inbox.pending = Function.update (sys.ends e).inbox.pending c'
      (((sys.ends e).inbox.pending c').filter (·.1 ≠ (sys.ends e).shared.received c')))
    (hs : Steers P ((sys.ends e).shared.count c') s) (t : End)
    (ht : t = { sys.ends e with
      inbox := inbox, output := (sys.ends e).output ++ [.ok m], shared := s })
    (h' : (sys.commit e t).Sound) :
    Refines g lossy d c sys (sys.commit e t) := by
  have hmoves : Moves P (sys.ends e).shared t.shared := by
    subst ht
    exact h.moves (r := (sys.ends e).shared.count c') rfl rfl rfl rfl hs
  rcases either d e with rfl | rfl
  · refine sent hmoves h' (by subst ht; exact fun _ _ h => h) ?_
    subst ht
    rw [show s.acknowledged c = (sys.ends d).shared.acknowledged c from congrFun hs.acknowledged c]
    exact .refl
  have hself : (sys.link (!e) c).toRx = (sys.ends e).rx c := by simp [link]
  have hinbox : t.inbox = inbox := by rw [ht]
  have houtput : t.output = (sys.ends e).output ++ [.ok m] := by rw [ht]
  have hreceived : t.shared.received c = Function.update (sys.ends e).shared.received c'
      ((sys.ends e).shared.received c' + 1) c := by
    subst ht
    exact congrFun hs.received c
  by_cases hcc : c = c'
  · subst hcc
    refine got hmoves h' hc ?_
    have hin : ((sys.link (!e) c).received, m) ∈ (sys.link (!e) c).held := by
      rw [hself]
      exact mem_of_lookup hm
    have hstep : Link.Step g.streams c lossy (sys.link (!e) c) _ := .deliver m hin
    have hrx : t.rx c = { (sys.ends e).rx c with
        held := ((sys.ends e).rx c).held.filter (·.1 ≠ ((sys.ends e).rx c).received)
        received := ((sys.ends e).rx c).received + 1
        delivered := ((sys.ends e).rx c).delivered ++ [m] } := by
      rw [Function.update_self] at hreceived
      ext1
      · rw [ht]
        rfl
      · show t.inbox.pending c = _
        rw [hinbox, hpending, Function.update_self]
        rfl
      · exact hreceived
      · show t.output.filterMap (deliveredOn c) = (sys.ends e).output.filterMap (deliveredOn c) ++ [m]
        rw [houtput, List.filterMap_append]
        simp [deliveredOn, hch]
    rw [hrx, ← hself]
    exact .single hstep
  · refine got_same hmoves h' hc ?_
    rw [Function.update_of_ne hcc] at hreceived
    have hne : m.channel ≠ c := by
      rw [hch]
      exact Ne.symm hcc
    ext1
    · rw [ht]
      rfl
    · show t.inbox.pending c = _
      rw [hinbox, hpending, Function.update_of_ne hcc]
      rfl
    · exact hreceived
    · show t.output.filterMap (deliveredOn c) = (sys.ends e).output.filterMap (deliveredOn c)
      rw [houtput, List.filterMap_append]
      simp [deliveredOn, hne]

/-- Every record the inbox holds is filed under its channel, a reliable one. -/
def Filed (sys : System) : Prop :=
  ∀ e c, ∀ x ∈ (sys.ends e).inbox.pending c, x.2.channel = c ∧ c ∈ reliable

theorem Filed.commit {t : End} (h : sys.Filed)
    (ht : ∀ c, ∀ x ∈ t.inbox.pending c, x ∈ (sys.ends e).inbox.pending c ∨
      x.2.channel = c ∧ c ∈ reliable) :
    (sys.commit e t).Filed := by
  intro b c x hx
  rcases either b e with rfl | rfl
  · rw [commit_self] at hx
    rcases ht c x hx with hx | hx
    · exact h b c x hx
    · exact hx
  · rw [commit_other] at hx
    exact h _ c x hx

theorem Filed.steps (h : sys.Filed) (hs : Steps g P sys sys') : sys'.Filed := by
  cases hs with
  | tick | conn | arrive | lossy => exact h
  | route | callers | number | complete | mediaLost | failed | notice | report | consume =>
    exact h.commit fun _ _ hx => .inl hx
  | attach e native s id hs =>
    have hfiled : (sys.commit e { sys.ends e with shared := s }).Filed :=
      h.commit fun _ _ hx => .inl hx
    exact hfiled
  | wake e c hc hlive =>
    refine h.commit fun c' x hx => .inl ?_
    have hinbox : ((sys.ends e).wake c).inbox = (sys.ends e).inbox := by
      unfold End.wake
      split <;> rfl
    rwa [hinbox] at hx
  | sealCopy e c i x hc hx hroom t ht | mediaSent e c header payload y hc hy t ht
  | forward e k i id r hr t ht =>
    have hfiled : (sys.commit e t).Filed := h.commit fun _ _ hx => .inl (by rwa [ht] at hx)
    exact hfiled
  | received e id m rest t r s hevents ht hres hs =>
    refine h.commit fun c x hx => ?_
    cases ht.inbox with
    | insert sequence epoch payload hc hparse hle hnew _ hpending hbytes =>
      have hx : x ∈ t.inbox.pending c := hx
      rw [hpending] at hx
      by_cases hch : c = m.channel
      · subst hch
        rw [Function.update_self] at hx
        rcases List.mem_cons.mp hx with rfl | hx
        · exact .inr ⟨rfl, hc⟩
        · exact .inl hx
      · rw [Function.update_of_ne hch] at hx
        exact .inl hx
    | same _ hpending hbytes hwhy =>
      have hx : x ∈ t.inbox.pending c := hx
      rw [hpending] at hx
      exact .inl hx
  | deliver e c m s hm inbox hpending hbytes hs =>
    refine h.commit fun c' x hx => .inl ?_
    have hx : x ∈ inbox.pending c' := hx
    rw [hpending] at hx
    by_cases hch : c' = c
    · subst hch
      rw [Function.update_self] at hx
      exact List.mem_of_mem_filter hx
    · rwa [Function.update_of_ne hch] at hx

/-- **Refinement.**  A step of the system is a run of steps of every link. -/
theorem steps_refine (h : sys.Sound) (hfiled : sys.Filed) (hg : (sys.link d c).Genuine c)
    (hs : Steps g P sys sys') (hloses : sys.Loses → lossy) (hc : c ∈ reliable) :
    Refines g lossy d c sys sys' := by
  have h' := h.steps hs
  cases hs with
  | tick time => exact .refl
  | conn k established closed hclosed => exact conn_refines h' rfl rfl rfl rfl hclosed
  | route e s hs =>
    exact unchanged (h.moves rfl rfl rfl rfl hs) h' hc (fun _ _ => .rfl)
      ⟨rfl, congrFun hs.acknowledged c, rfl, rfl⟩ ⟨rfl, congrFun hs.received c, rfl⟩
  | attach e native s id hs => exact attach_refines h hs
  | report e =>
    refine unchanged (P := fun _ => True) (.of_eq (h.calm e) (h.steady e) rfl rfl (.inr rfl) rfl) h'
      hc (fun _ _ => .rfl) ⟨rfl, rfl, rfl, rfl⟩ ⟨rfl, rfl, ?_⟩
    simp [End.report, deliveredOn]
  | callers e c' w hc' hpending hsending haccounted =>
    refine unchanged (P := fun _ => True) (.of_eq (h.calm e) (h.steady e) rfl rfl (.inl rfl) rfl) h'
      hc (fun _ _ => .rfl) ⟨rfl, rfl, ?_, ?_⟩ ⟨rfl, rfl, rfl⟩
    · by_cases hcc : c = c'
      · subst hcc
        simpa [End.setWriter] using hpending
      · simp [End.setWriter, hcc]
    · by_cases hcc : c = c'
      · subst hcc
        simpa [End.setWriter] using hsending
      · simp [End.setWriter, hcc]
  | wake e c' hc' hlive => exact wake_refines h hc hlive h'
  | number e c' request rest hc' hqueue hroom hmax =>
    exact number_refines h hc hroom hmax hg.bound _ rfl h'
  | sealCopy e c' i x hc' hx hroom t ht => exact sealCopy_refines h hx hroom t ht rfl h'
  | complete e c' i x s hc' hx hdone hs => exact complete_refines h hc hx hdone hs _ rfl h'
  | mediaLost e c' s hc' hs =>
    exact unchanged (h.moves (r := (sys.ends e).shared.allocate c') rfl rfl rfl rfl hs) h' hc
      (fun _ _ => .rfl) ⟨rfl, congrFun hs.acknowledged c, rfl, rfl⟩ ⟨rfl, congrFun hs.received c, rfl⟩
  | mediaSent e c' header payload y hc' hy t ht =>
    exact mediaSent_refines h (says_nothing (parse_envelope _ _ _ _ _)) t ht rfl h'
  | arrive e k c' n x hc' hx hopen harrives =>
    exact arrive_refines hx hopen harrives _ rfl _ rfl h'
  | lossy e k m hm => exact lossy_refines h hc hm h'
  | forward e k i id r hr t ht => exact forward_refines h hr t ht rfl h'
  | notice e id error =>
    refine unchanged (P := fun _ => True) (.of_eq (h.calm e) (h.steady e) rfl rfl (.inl rfl) rfl) h'
      hc (fun id' m => ?_) ⟨rfl, rfl, rfl, rfl⟩ ⟨rfl, rfl, rfl⟩
    simp
  | failed e id error rest s hevents hs =>
    refine unchanged (h.moves rfl rfl rfl rfl hs) h' hc (fun id' m => ?_)
      ⟨rfl, congrFun hs.acknowledged c, rfl, rfl⟩ ⟨rfl, congrFun hs.received c, rfl⟩
    simp [hevents]
  | received e id m rest t r s hevents ht hres hs =>
    rcases either d e with rfl | rfl
    · exact received_sent h hevents ht hs h'
    · exact received_got h hg hloses hc hevents ht hres hs h'
  | deliver e c' m s hm inbox hpending hbytes hs =>
    exact deliver_refines h hc (hfiled e c' _ (mem_of_lookup hm)).1 hm hpending hs _ rfl h'
  | consume e =>
    exact unchanged (P := fun _ => True) (.of_eq (h.calm e) (h.steady e) rfl rfl (.inl rfl) rfl) h'
      hc (fun _ _ => .rfl) ⟨rfl, rfl, rfl, rfl⟩ ⟨rfl, rfl, rfl⟩

end System

end Multipath

end NebulaDesk
