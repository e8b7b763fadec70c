/-
What one step of the system can be.

`Steps` lists the outcomes of `System.step` with what made them possible, the
route functions reduced to what they can do (`Shared.Steers`); `Received` does
the same for a message taken in by `End.receive`.  Every later proof about a step
is a case analysis of these.
-/
import NebulaDesk.Multipath.Sound

namespace NebulaDesk

namespace Multipath

open Shared

/-- `P` holds of every error a native session or the end itself gives rise to. -/
structure Allows (P : TransportError → Prop) : Prop where
  connection : ∀ error, P (.connection error)
  write : ∀ error, P (.write error)
  datagram : ∀ error, P (.datagram error)
  closed : P .closed
  config : ∀ text, P (.config text)
  exhausted : P (.multipathProtocol "logical sequence exhausted")

theorem allows_true : Allows fun _ => True := ⟨by simp, by simp, by simp, trivial, by simp, trivial⟩

/-- The state with other acknowledged counts. -/
def Shared.withAcks (acknowledged : Channel → ℕ) (s : Shared) : Shared :=
  { s with acknowledged := acknowledged }

/-- The state with one more sequence of `c` allocated. -/
def Shared.allocate (c : Channel) (s : Shared) : Shared :=
  { s with allocated := Function.update s.allocated c (s.allocated c + 1) }

/-- The state with one more record of `c` received. -/
def Shared.count (c : Channel) (s : Shared) : Shared :=
  { s with received := Function.update s.received c (s.received c + 1) }

/-- `m` acknowledges `v` records of `c`. -/
def Says (c : Channel) (v : ℕ) (m : Incoming) : Prop :=
  ∃ kind nonce bytes, parse m = .ok (.internal kind nonce bytes) ∧ ackOf c bytes = v

def deliveredOn (c : Channel) : Except TransportError Incoming → Option Incoming
  | .ok m => if m.channel = c then some m else none
  | .error _ => none

/-! ### Acknowledgments -/

theorem readU64_drop (i : ℕ) (bytes : List UInt8) :
    readU64 (8 * i) (bytes.drop 8) = readU64 (8 * (i + 1)) bytes := by
  simp only [readU64, List.drop_drop]
  congr 3
  omega

/-- Reading an acknowledgment changes the acknowledged counts only, and raises
each of them at most to the count it carries. -/
theorem readAcksFrom_cases (cs : List Channel) (hcs : cs.Nodup) (bytes : List UInt8) (s : Shared) :
    ∃ a, (readAcksFrom cs bytes s).1 = s.withAcks a ∧ ∀ c, a c = s.acknowledged c ∨
      ∃ i, cs[i]? = some c ∧ a c = max (s.acknowledged c) (readU64 (8 * i) bytes) := by
  induction cs generalizing bytes s with
  | nil => exact ⟨s.acknowledged, rfl, fun c => .inl rfl⟩
  | cons d cs ih =>
    obtain ⟨hd, hcs⟩ := List.nodup_cons.mp hcs
    unfold readAcksFrom
    dsimp only
    split
    · exact ⟨s.acknowledged, rfl, fun c => .inl rfl⟩
    · obtain ⟨a, ha, hc⟩ := ih hcs (bytes.drop 8) (s.withAcks
        (Function.update s.acknowledged d (max (s.acknowledged d) (readU64 0 bytes))))
      refine ⟨a, ha, fun c => ?_⟩
      by_cases hcd : c = d
      · subst hcd
        refine .inr ⟨0, rfl, ?_⟩
        rcases hc c with h | ⟨i, hi, -⟩
        · simpa [withAcks] using h
        · exact absurd (List.mem_of_getElem? hi) hd
      · have hold : (s.withAcks (Function.update s.acknowledged d
            (max (s.acknowledged d) (readU64 0 bytes)))).acknowledged c = s.acknowledged c :=
          Function.update_of_ne hcd _ _
        have hcc := hc c
        rw [hold] at hcc
        refine hcc.imp_right fun ⟨i, hi, hval⟩ => ⟨i + 1, by simpa using hi, ?_⟩
        rw [← readU64_drop]
        exact hval

theorem readAcksFrom_ok (cs : List Channel) (bytes : List UInt8) (s : Shared)
    (h : ∀ i c, cs[i]? = some c → readU64 (8 * i) bytes ≤ s.allocated c) :
    (readAcksFrom cs bytes s).2 = .ok () := by
  induction cs generalizing bytes s with
  | nil => rfl
  | cons d cs ih =>
    unfold readAcksFrom
    dsimp only
    rw [if_neg (Nat.not_lt.mpr (h 0 d rfl))]
    refine ih _ _ fun i c hi => ?_
    rw [readU64_drop]
    exact h (i + 1) c (by simpa using hi)

theorem getElem?_reliable {i : ℕ} {c : Channel} (h : reliable[i]? = some c) :
    i = reliable.idxOf c := by
  have hlt : i < reliable.length := (List.getElem?_eq_some_iff.mp h).1
  have : i < 4 := hlt
  interval_cases i <;> cases h <;> rfl

theorem readAcks_cases (bytes : List UInt8) (s : Shared) :
    ∃ a, (s.readAcks bytes).1 = s.withAcks a ∧
      ∀ c, a c = s.acknowledged c ∨ a c = max (s.acknowledged c) (ackOf c bytes) := by
  unfold readAcks
  split
  · exact ⟨s.acknowledged, rfl, fun _ => .inl rfl⟩
  · obtain ⟨a, ha, hc⟩ := readAcksFrom_cases reliable (by decide) bytes s
    refine ⟨a, ha, fun c => (hc c).imp_right fun ⟨i, hi, hval⟩ => ?_⟩
    rw [getElem?_reliable hi] at hval
    exact hval

/-! ### Taking in a message -/

theorem lookup_eq_none {α : Type} {l : List (ℕ × α)} {s : ℕ} (h : l.lookup s = none) :
    s ∉ l.map Prod.fst := by
  rw [List.lookup_eq_none_iff] at h
  intro hs
  obtain ⟨x, hx, rfl⟩ := List.mem_map.mp hs
  simpa using h x hx

theorem mem_of_lookup {α : Type} {l : List (ℕ × α)} {s : ℕ} {a : α} (h : l.lookup s = some a) :
    (s, a) ∈ l := by
  obtain ⟨l₁, l₂, rfl, -⟩ := List.lookup_eq_some_iff.mp h
  simp

/-- What a data message says, as the inbox keeps it. -/
def unwrap (sequence : ℕ) (payload : List UInt8) (m : Incoming) : Incoming :=
  { m with header := { m.header with seq := UInt32.ofNat sequence }, payload := payload }

/-- What becomes of the inbox when the data message `m` is taken in. -/
inductive Kept (t : End) (m : Incoming) (r : Except TransportError Unit) : Inbox → Prop
  /-- A record that is new and fits. -/
  | insert (sequence epoch : ℕ) (payload : List UInt8) (hc : m.channel ∈ reliable)
      (hparse : parse m = .ok (.data sequence epoch payload))
      (hle : t.shared.received m.channel ≤ sequence)
      (hnew : sequence ∉ (t.inbox.pending m.channel).map Prod.fst)
      (inbox : Inbox) (hpending : inbox.pending = Function.update t.inbox.pending m.channel
        ((sequence, unwrap sequence payload m) :: t.inbox.pending m.channel))
      (hbytes : inbox.bytes = t.inbox.bytes + payload.length) : Kept t m r inbox
  /-- A record that was received before, or anything that is not kept. -/
  | same (inbox : Inbox) (hpending : inbox.pending = t.inbox.pending)
      (hbytes : inbox.bytes = t.inbox.bytes)
      (hwhy : ∀ sequence epoch payload, m.channel ∈ reliable →
        parse m = .ok (.data sequence epoch payload) →
        sequence < t.shared.received m.channel ∨
          sequence ∈ (t.inbox.pending m.channel).map Prod.fst ∨ r ≠ .ok () ∨
          byteWindow * reliable.length < t.inbox.bytes + payload.length) : Kept t m r inbox

/-- What taking in a message does. -/
structure Received (P : TransportError → Prop) (t : End) (m : Incoming)
    (result : End × Except TransportError Unit) : Prop where
  shared : ∃ a, Steers P (t.shared.withAcks a) result.1.shared ∧
    ∀ c, a c = t.shared.acknowledged c ∨
      ∃ v, Says c v m ∧ a c = max (t.shared.acknowledged c) v
  writers : result.1.writers = t.writers
  events : result.1.events = t.events
  records : result.1.records = t.records
  output : ∀ c ∈ reliable, result.1.output.filterMap (deliveredOn c) =
    t.output.filterMap (deliveredOn c)
  errors : ∀ error, .error error ∈ result.1.output → .error error ∈ t.output
  inbox : Kept t m result.2 result.1.inbox

section Receiving

variable {P : TransportError → Prop} {t : End} {m : Incoming} {h : Host} {id : ℕ}

theorem Received.steered {s : Shared} {r : Except TransportError Unit}
    (hs : Steers P t.shared s)
    (hwhy : ∀ sequence epoch payload, m.channel ∈ reliable →
      parse m = .ok (.data sequence epoch payload) →
      sequence < t.shared.received m.channel ∨
        sequence ∈ (t.inbox.pending m.channel).map Prod.fst ∨ r ≠ .ok () ∨
        byteWindow * reliable.length < t.inbox.bytes + payload.length) :
    Received P t m ({ t with shared := s }, r) where
  shared := ⟨t.shared.acknowledged, hs, fun _ => .inl rfl⟩
  writers := rfl
  events := rfl
  records := rfl
  output := fun _ _ => rfl
  errors := fun _ h => h
  inbox := .same _ rfl rfl hwhy

theorem received_internal (hP : Allows P) (hs : t.shared.Steady) {kind : InternalKind} {nonce : ℕ}
    {bytes : List UInt8} (hparse : parse m = .ok (.internal kind nonce bytes)) :
    Received P t m (t.receiveInternal h id kind nonce bytes) := by
  have hwhy : ∀ r : Except TransportError Unit, ∀ sequence epoch payload, m.channel ∈ reliable →
      parse m = .ok (.data sequence epoch payload) →
      sequence < t.shared.received m.channel ∨
        sequence ∈ (t.inbox.pending m.channel).map Prod.fst ∨ r ≠ .ok () ∨
        byteWindow * reliable.length < t.inbox.bytes + payload.length := by
    intro r sequence epoch payload _ hdata
    rw [hparse] at hdata
    cases hdata
  obtain ⟨a, ha, hcounts⟩ := readAcks_cases bytes t.shared
  have hvalue : ∀ c, a c = t.shared.acknowledged c ∨
      ∃ v, Says c v m ∧ a c = max (t.shared.acknowledged c) v := fun c =>
    (hcounts c).imp_right fun hc => ⟨_, ⟨kind, nonce, bytes, hparse, rfl⟩, hc⟩
  have hsa : (t.shared.withAcks a).Steady := { hs with }
  unfold End.receiveInternal
  rcases hread : t.shared.readAcks bytes with ⟨s, r⟩
  rw [hread] at ha
  obtain rfl : s = t.shared.withAcks a := ha
  cases r with
  | error error =>
    exact ⟨⟨a, .refl hsa, hvalue⟩, rfl, rfl, rfl, fun _ _ => rfl, fun _ h => h,
      .same _ rfl rfl (hwhy _)⟩
  | ok =>
    have hready : Steers P (t.shared.withAcks a) ((t.shared.withAcks a).peerReady h id) :=
      peerReady_steers hsa
    refine ⟨⟨a, ?_, hvalue⟩, rfl, rfl, rfl, fun _ _ => rfl, fun _ h => h,
      .same _ rfl rfl (hwhy _)⟩
    cases kind with
    | ack => exact hready
    | probe => exact hready.trans (internal_steers hP.datagram hready.steady rfl)
    | echo => exact hready.trans (echo_steers hready.steady nonce)

theorem received_reliable (hP : Allows P) (hs : t.shared.Steady) {sequence epoch : ℕ}
    {payload : List UInt8} (hc : m.channel ∈ reliable)
    (hparse : parse m = .ok (.data sequence epoch payload)) :
    Received P t m ((t.onShared (·.peerReady h id)).receiveReliable h id sequence
      (unwrap sequence payload m)) := by
  have hready : Steers P t.shared (t.shared.peerReady h id) := peerReady_steers hs
  have hseq : ∀ {Q : Prop} {s e : ℕ} {p : List UInt8}, parse m = .ok (.data s e p) →
      (s = sequence → p = payload → Q) → Q := by
    intro Q s e p hp hQ
    rw [hparse] at hp
    obtain ⟨h1, -, h2⟩ := Frame.data.inj (Except.ok.inj hp)
    exact hQ h1.symm h2.symm
  have hnext : (t.onShared (·.peerReady h id)).shared.received m.channel =
      t.shared.received m.channel := congrFun hready.received m.channel
  unfold End.receiveReliable
  dsimp only
  split
  · -- Received before: acknowledge it again.
    rename_i hlt
    refine .steered (hready.trans (internal_steers hP.datagram hready.steady rfl)) ?_
    intro s e p _ hp
    exact hseq hp fun h1 _ => .inl (by rw [h1, ← hnext]; exact hlt)
  rename_i hge
  split
  · refine .steered hready fun s e p _ hp => .inr (.inr (.inl ?_))
    simp
  split
  · rename_i previous hprev
    have hmem : sequence ∈ (t.inbox.pending m.channel).map Prod.fst :=
      List.mem_map.mpr ⟨_, mem_of_lookup hprev, rfl⟩
    split
    · exact .steered hready fun s e p _ hp => hseq hp fun h1 _ => .inr (.inl (h1 ▸ hmem))
    · exact .steered hready fun s e p _ hp => hseq hp fun h1 _ => .inr (.inl (h1 ▸ hmem))
  · rename_i hnone
    have hnew : sequence ∉ (t.inbox.pending m.channel).map Prod.fst := lookup_eq_none hnone
    have hle : t.shared.received m.channel ≤ sequence := by
      rw [← hnext]
      exact Nat.le_of_not_lt hge
    split
    · exact
      { shared := ⟨t.shared.acknowledged, hready, fun _ => .inl rfl⟩
        writers := rfl
        events := rfl
        records := rfl
        output := fun _ _ => rfl
        errors := fun _ h => h
        inbox := .insert sequence epoch payload hc hparse hle hnew _ rfl rfl }
    · rename_i hfull
      refine .steered hready fun s e p _ hp => hseq hp fun _ h2 => .inr (.inr (.inr ?_))
      rw [h2]
      exact Nat.lt_of_not_le hfull

theorem received_media (hs : t.shared.Steady) {sequence epoch : ℕ} {payload : List UInt8}
    (hc : m.channel ∉ reliable) (r : Except TransportError Unit) :
    Received P t m ((t.onShared (·.peerReady h id)).receiveMedia epoch sequence
      (unwrap sequence payload m), r) := by
  have hready : Steers P t.shared (t.shared.peerReady h id) := peerReady_steers hs
  have hwhy : ∀ sequence epoch payload, m.channel ∈ reliable →
      parse m = .ok (.data sequence epoch payload) →
      sequence < t.shared.received m.channel ∨
        sequence ∈ (t.inbox.pending m.channel).map Prod.fst ∨ r ≠ .ok () ∨
        byteWindow * reliable.length < t.inbox.bytes + payload.length :=
    fun _ _ _ hmem _ => absurd hmem hc
  have hout : ∀ c ∈ reliable, ∀ output : List (Except TransportError Incoming),
      (output ++ [Except.ok (unwrap sequence payload m)]).filterMap (deliveredOn c) =
        output.filterMap (deliveredOn c) := by
    intro c hcr output
    have hne : m.channel ≠ c := by
      rintro rfl
      exact hc hcr
    simp [deliveredOn, unwrap, hne]
  unfold End.receiveMedia
  split
  · exact .steered hready hwhy
  dsimp only
  -- A newer epoch is published; either way the message is then taken or dropped.
  have hpublished : Steers P t.shared
      ((t.shared.peerReady h id).publish (t.shared.peerReady h id).routes.active) :=
    hready.trans (publish_steers hready.steady _)
  split <;> split <;> exact
    { shared := ⟨t.shared.acknowledged, by first | exact hpublished | exact hready,
        fun _ => .inl rfl⟩
      writers := rfl
      events := rfl
      records := rfl
      output := by first | exact fun c hcr => hout c hcr _ | exact fun _ _ => rfl
      errors := by first | exact fun _ h => h | exact fun _ h => by simpa [End.onShared] using h
      inbox := .same _ rfl rfl hwhy }

theorem receive_cases (hP : Allows P) (hs : t.shared.Steady) :
    Received P t m (t.receive h id m) := by
  unfold End.receive
  split
  · rename_i error herror
    refine .steered (.refl hs) fun s e p _ hp => ?_
    rw [herror] at hp
    cases hp
  · rename_i sequence epoch payload hparse
    unfold End.receiveData
    dsimp only
    by_cases hc : m.channel ∈ reliable
    · rw [if_pos hc]
      exact received_reliable hP hs hc hparse
    · rw [if_neg hc]
      exact received_media hs hc _
  · rename_i kind nonce bytes hparse
    exact received_internal hP hs hparse

end Receiving

/-! ### Steps -/

namespace System

/-- What a step can make of the system. -/
inductive Steps (g : Setting) (P : TransportError → Prop) (sys : System) : System → Prop
  | tick (time : ℕ) : Steps g P sys { sys with clock := sys.clock + time }
  /-- A connection is established or closed. -/
  | conn (k : ℕ) (established : Bool) (closed : Option Closure)
      (hclosed : (sys.conns k).closed.isSome → closed.isSome) :
      Steps g P sys (sys.setConn k { sys.conns k with established, closed })
  | route (e : Bool) (s : Shared) (hs : Steers P (sys.ends e).shared s) :
      Steps g P sys (sys.commit e { sys.ends e with shared := s })
  | attach (e : Bool) (native : Native) (s : Shared) (id : ℕ)
      (hs : Attached (sys.host g e []) native (sys.ends e).shared s id) :
      Steps g P sys ((sys.commit e { sys.ends e with shared := s }).setConn native.conn
        (((sys.commit e { sys.ends e with shared := s }).conns native.conn).setPathId e id))
  | report (e : Bool) : Steps g P sys (sys.commit e (sys.ends e).report)
  /-- A caller comes, waits, queues its record or goes. -/
  | callers (e : Bool) (c : Channel) (w : Writer) (hc : c ∈ reliable)
      (hpending : w.pending = ((sys.ends e).writers c).pending)
      (hsending : w.sending = ((sys.ends e).writers c).sending)
      (haccounted : ((sys.ends e).writers c).Accounted → w.Accounted) :
      Steps g P sys (sys.commit e ((sys.ends e).setWriter c w))
  | wake (e : Bool) (c : Channel) (hc : c ∈ reliable) (hlive : (sys.ends e).shared.shutdown = false) :
      Steps g P sys (sys.commit e ((sys.ends e).wake c))
  | number (e : Bool) (c : Channel) (request : Request) (rest : List Request) (hc : c ∈ reliable)
      (hqueue : ((sys.ends e).writers c).queue = request :: rest)
      (hroom : ((sys.ends e).writers c).pending.length < window)
      (hmax : (sys.ends e).shared.allocated c + 1 ≠ 2 ^ 64) :
      Steps g P sys (sys.commit e
        { sys.ends e with
          shared := (sys.ends e).shared.allocate c
          writers := Function.update (sys.ends e).writers c
            (((sys.ends e).writers c).number ((sys.ends e).shared.allocated c) request rest)
          records := Function.update (sys.ends e).records c ((sys.ends e).records c ++ [request]) })
  | sealCopy (e : Bool) (c : Channel) (i : ℕ) (x : Copy) (hc : c ∈ reliable)
      (hx : ((sys.ends e).writers c).sending[i]? = some ⟨x, false⟩)
      (hroom : c.isStreamPerMessage → ((sys.conns x.conn).lanes e c).flight.length < g.streams)
      (t : End) (ht : t = (sys.ends e).setWriter c { (sys.ends e).writers c with
        sending := ((sys.ends e).writers c).sending.set i ⟨x, true⟩ }) :
      Steps g P sys ((sys.commit e t).setConn x.conn
        (((sys.commit e t).conns x.conn).setLane e c (((sys.conns x.conn).lanes e c).push x)))
  /-- A write returns, or fails with the connection. -/
  | complete (e : Bool) (c : Channel) (i : ℕ) (x : Sending) (s : Shared) (hc : c ∈ reliable)
      (hx : ((sys.ends e).writers c).sending[i]? = some x)
      (hdone : x.isSealed = true ∨ (sys.conns x.copy.conn).closed.isSome)
      (hs : Steers P (sys.ends e).shared s) :
      Steps g P sys (sys.commit e { (sys.ends e).setWriter c
        (((sys.ends e).writers c).complete i) with shared := s })
  /-- A media message takes its sequence and is lost, with its path or alone. -/
  | mediaLost (e : Bool) (c : Channel) (s : Shared) (hc : c ∉ reliable)
      (hs : Steers P ((sys.ends e).shared.allocate c) s) :
      Steps g P sys (sys.commit e { sys.ends e with shared := s })
  | mediaSent (e : Bool) (c : Channel) (header : MsgHeader) (payload : List UInt8) (y : Selected)
      (hc : c ∉ reliable) (hy : (sys.ends e).shared.selected = some y) (t : End)
      (ht : t = { sys.ends e with shared := (sys.ends e).shared.allocate c }) :
      Steps g P sys ((sys.commit e t).setConn y.native.conn
        (((sys.commit e t).conns y.native.conn).addToBag e
          ⟨c, header, envelope ((sys.ends e).shared.allocated c) y.epoch payload⟩))
  | arrive (e : Bool) (k : ℕ) (c : Channel) (n : ℕ) (x : Copy) (hc : c ∈ reliable)
      (hx : ((sys.conns k).lanes e c).log[n]? = some x) (hopen : (sys.conns k).closed = none)
      (harrives : ((sys.conns k).lanes e c).arrives c n = true) :
      Steps g P sys (sys.setConn k (((sys.conns k).setLane e c
        (((sys.conns k).lanes e c).take c n x).2).setOpened (!e) ((sys.conns k).opened (!e) ++
          [match (((sys.conns k).lanes e c).take c n x).1 with
            | .ok x => .ok (x.message c n)
            | .error error => .error (.crypto error)])))
  | lossy (e : Bool) (k : ℕ) (m : Incoming) (hm : m ∈ (sys.conns k).bag e) :
      Steps g P sys (sys.setConn k ((sys.conns k).setOpened (!e)
        ((sys.conns k).opened (!e) ++ [.ok m])))
  | forward (e : Bool) (k i id : ℕ) (r : Except TransportError Incoming)
      (hr : ((sys.conns k).opened e)[i]? = some r) (t : End)
      (ht : t = { sys.ends e with events := (sys.ends e).events ++ [event id r] }) :
      Steps g P sys ((sys.commit e t).setConn k
        ((sys.conns k).setOpened e (((sys.conns k).opened e).eraseIdx i)))
  | notice (e : Bool) (id : ℕ) (error : ConnectionError) :
      Steps g P sys (sys.commit e { sys.ends e with
        events := (sys.ends e).events ++ [.failed id (.connection error)] })
  | failed (e : Bool) (id : ℕ) (error : TransportError) (rest : List Event) (s : Shared)
      (hevents : (sys.ends e).events = .failed id error :: rest)
      (hs : Steers P (sys.ends e).shared s) :
      Steps g P sys (sys.commit e { sys.ends e with events := rest, shared := s })
  /-- A message is taken in; an error makes the path fail. -/
  | received (e : Bool) (id : ℕ) (m : Incoming) (rest : List Event) (t : End)
      (r : Except TransportError Unit) (s : Shared)
      (hevents : (sys.ends e).events = .received id m :: rest)
      (ht : Received P { sys.ends e with events := rest } m (t, r))
      (hres : ∃ h, End.receive h id m { sys.ends e with events := rest } = (t, r))
      (hs : Steers P t.shared s) :
      Steps g P sys (sys.commit e { t with shared := s })
  | deliver (e : Bool) (c : Channel) (m : Incoming) (s : Shared)
      (hm : ((sys.ends e).inbox.pending c).lookup ((sys.ends e).shared.received c) = some m)
      (inbox : Inbox) (hpending : inbox.pending = Function.update (sys.ends e).inbox.pending c
        (((sys.ends e).inbox.pending c).filter (·.1 ≠ (sys.ends e).shared.received c)))
      (hbytes : inbox.bytes = (sys.ends e).inbox.bytes - m.payload.length)
      (hs : Steers P ((sys.ends e).shared.count c) s) :
      Steps g P sys (sys.commit e { sys.ends e with
        inbox := inbox, output := (sys.ends e).output ++ [.ok m], shared := s })
  | consume (e : Bool) :
      Steps g P sys (sys.commit e { sys.ends e with consumed := (sys.ends e).consumed + 1 })

/-- `P` holds of every error that waits to be handled or that taking in a
message raises. -/
structure Trusts (P : TransportError → Prop) (sys : System) : Prop where
  failed : ∀ e id error, Event.failed id error ∈ (sys.ends e).events → P error
  received : ∀ e id m rest h error, (sys.ends e).events = .received id m :: rest →
    (End.receive h id m { sys.ends e with events := rest }).2 = .error error → P error

theorem trusts_true (sys : System) : sys.Trusts fun _ => True :=
  ⟨fun _ _ _ _ => trivial, fun _ _ _ _ _ _ _ _ => trivial⟩

variable {g : Setting} {P : TransportError → Prop} {sys sys' : System}
variable {e : Bool} {t : End} {c : Channel}

theorem live_iff : sys.live e = true ↔ (sys.ends e).shared.shutdown = false := by
  simp [live]

theorem steps_process (hP : Allows P) (hsys : sys.Sound) (htrust : sys.Trusts P)
    {h : Host} (ht : (sys.ends e).process h = some t) : Steps g P sys (sys.commit e t) := by
  unfold End.process at ht
  split at ht
  · cases ht
  rename_i event rest hevents
  dsimp only at ht
  split at ht
  · rename_i id error
    cases ht
    have hPe := htrust.failed e id error (by rw [hevents]; exact List.mem_cons_self)
    exact .failed e id error rest _ hevents (failPath_steers (hsys.steady e) hPe)
  · rename_i id m
    have hrec : Received P { sys.ends e with events := rest } m
      (End.receive h id m { sys.ends e with events := rest }) := receive_cases hP (hsys.steady e)
    obtain ⟨a, hst, -⟩ := hrec.shared
    split at ht
    · rename_i t' hres
      obtain rfl := Option.some.inj ht
      rw [hres] at hrec hst
      exact .received e id m rest t' _ t'.shared hevents hrec ⟨h, hres⟩ (.refl hst.steady)
    · rename_i t' error hres
      cases ht
      have hPe := htrust.received e id m rest h error hevents (by rw [hres])
      rw [hres] at hrec hst
      exact .received e id m rest t' _ _ hevents hrec ⟨h, hres⟩
        (failPath_steers hst.steady hPe)

theorem steps_deliver (hP : Allows P) (hsys : sys.Sound) {h : Host}
    (ht : (sys.ends e).deliver h c = some t) : Steps g P sys (sys.commit e t) := by
  unfold End.deliver at ht
  dsimp only at ht
  split at ht
  · cases ht
  rename_i m hm
  cases ht
  refine .deliver e c m _ hm _ rfl rfl (Steers.foldl (fun s id hs => ?_) ?_ _)
  · exact internal_steers hP.datagram hs rfl
  · exact ⟨(hsys.steady e).seated, (hsys.steady e).present, (hsys.steady e).gone⟩

theorem steps_take (hP : Allows P) (hsys : sys.Sound) (hc : c ∈ reliable)
    (ht : (sys.ends e).take c = some t) : Steps g P sys (sys.commit e t) := by
  unfold End.take at ht
  split at ht
  · cases ht
  rename_i request rest hqueue
  split at ht
  · rename_i hroom
    dsimp only at ht
    split at ht
    · cases ht
      exact .route e _ (stopWithCode_steers (hsys.steady e) hP.exhausted 0 _)
    · rename_i hmax
      cases ht
      exact .number e c request rest hc hqueue hroom hmax
  · cases ht

theorem steps_media (hP : Allows P) (hsys : sys.Sound)
    (hc : c ∉ reliable) {header : MsgHeader} {payload : List UInt8} {bad : List ℕ}
    (h : sys.media g e c header payload bad = .ok sys') : Steps g P sys sys' := by
  unfold media at h
  simp only [bind, Except.bind, pure, Except.pure] at h
  split at h
  · cases h
  split at h
  · cases h
  rename_i y hy
  unfold End.lossySequence at h
  split at h
  · cases h
  rename_i v hv
  split at hv
  · cases hv
  cases hv
  have hs : ((sys.ends e).shared.allocate c).Steady :=
    ⟨(hsys.steady e).seated, (hsys.steady e).present, (hsys.steady e).gone⟩
  split at h
  · cases h
    exact .mediaSent e c header payload y hc hy _ rfl
  · cases h
    exact .mediaLost e c _ hc (.refl hs)
  · cases h
    exact .mediaLost e c _ hc (failPath_steers hs (hP.datagram _))
  · cases h
    refine .mediaLost e c _ hc (failPath_steers hs ?_)
    split
    · exact hP.datagram _
    · exact hP.connection _

theorem steps_attach (hsys : sys.Sound) (e : Bool) (native : Native) :
    Steps g P sys (sys.attach g e native) := by
  unfold attach
  dsimp only
  rcases attach_cases (hsys.steady e) native with
    ⟨hs, error, herr⟩ | ⟨id, hid, hs⟩
  · rcases hres : (sys.ends e).shared.attach (sys.host g e []) native with ⟨s, r⟩
    rw [hres] at hs herr
    obtain rfl : r = .error error := herr
    exact .route e s hs
  · rcases hres : (sys.ends e).shared.attach (sys.host g e []) native with ⟨s, r⟩
    rw [hres] at hs hid
    obtain rfl : r = .ok id := hid
    exact .attach e native s id hs

/-- A caller that passed the checks of `send` waits for its first permit. -/
theorem steps_send (hc : c ∈ reliable) {request : Request}
    (ht : (sys.ends e).send c request = .ok t) : Steps g P sys (sys.commit e t) := by
  unfold End.send at ht
  simp only [bind, Except.bind, pure, Except.pure] at ht
  split at ht
  · cases ht
  cases ht
  refine .callers e c _ hc rfl rfl fun h => ⟨?_, ?_, h.pending⟩
  · have := h.count
    simp only [List.map_append, List.sum_append, List.map_singleton, List.sum_singleton,
      Caller.count, if_true]
    omega
  · have := h.bytes
    simp only [List.map_append, List.sum_append, List.map_singleton, List.sum_singleton,
      Caller.bytes, reduceCtorEq, if_false]
    omega

theorem advance_keeps {w w' : Writer} {i : ℕ} (h : w.advance i = some w') :
    w'.pending = w.pending ∧ w'.sending = w.sending := by
  unfold Writer.advance at h
  split at h
  · cases h
  all_goals
    obtain ⟨-, rfl⟩ := Runs.some_of_guard h
    exact ⟨rfl, rfl⟩

theorem cancel_keeps {w w' : Writer} {i : ℕ} (h : w.cancel i = some w') :
    w'.pending = w.pending ∧ w'.sending = w.sending := by
  unfold Writer.cancel at h
  split at h
  · cases h
  · cases h
    exact ⟨rfl, rfl⟩

theorem steps_arrive {k n : ℕ} (hc : c ∈ reliable)
    (h : sys.arrive e k c n = some sys') : Steps g P sys sys' := by
  unfold arrive at h
  dsimp only at h
  split at h
  · cases h
  rename_i x hx
  split at h
  · cases h
  rename_i hguard
  rw [not_or] at hguard
  cases h
  exact .arrive e k c n x hc hx (by simpa using hguard.1) (by simpa using hguard.2)

theorem steps_sealCopy {i : ℕ} (hc : c ∈ reliable)
    (h : sys.sealCopy g e c i = some sys') : Steps g P sys sys' := by
  unfold sealCopy at h
  dsimp only at h
  split at h
  · rename_i x hx
    obtain ⟨hroom, rfl⟩ := Runs.some_of_unless h
    exact .sealCopy e c i x hc hx
      (fun hstream => Nat.lt_of_not_le fun hle => hroom ⟨hstream, hle⟩) _ rfl
  · cases h

/-- **Every step is one of the listed ones.** -/
theorem step_cases (hP : Allows P) (hsys : sys.Sound) (htrust : sys.Trusts P) {a : Action}
    (h : step g sys a = some sys') : Steps g P sys sys' := by
  cases a with
  | tick time =>
    cases h
    exact .tick time
  | connect k =>
    obtain ⟨-, rfl⟩ := Runs.some_of_unless h
    exact .conn k true _ fun h => h
  | sever k closer code =>
    obtain ⟨-, rfl⟩ := Runs.some_of_guard h
    exact .conn k _ _ fun h => by simp
  | check e =>
    simp only [step] at h
    split at h
    · cases h
    obtain ⟨-, rfl⟩ := Runs.some_of_unless h
    exact .route e _ (stopWithCode_steers (hsys.steady e) (hP.config _) 0 _)
  | attach e native =>
    obtain ⟨-, rfl⟩ := Runs.some_of_guard h
    exact steps_attach hsys e native
  | disconnect e =>
    cases h
    exact .route e _ (disconnectDirect_steers hP.closed (hsys.steady e))
  | close e code =>
    obtain ⟨-, rfl⟩ := Runs.some_of_guard h
    exact .route e _ (stopWithCode_steers (hsys.steady e) hP.closed code _)
  | report e =>
    obtain ⟨-, rfl⟩ := Runs.some_of_guard h
    exact .report e
  | send e c request =>
    simp only [step] at h
    split at h
    · rename_i hguard
      split at h
      · cases h
      · rename_i t ht
        cases h
        exact steps_send hguard.1 ht
    · cases h
  | advance e c i =>
    simp only [step] at h
    split at h
    · rename_i hguard
      obtain ⟨w, hw, rfl⟩ := Option.map_eq_some_iff.mp h
      obtain ⟨hpending, hsending⟩ := advance_keeps hw
      exact .callers e c w hguard.2 hpending hsending fun hacc => hacc.advance hw
    · cases h
  | cancel e c i =>
    simp only [step] at h
    split at h
    · rename_i hc
      obtain ⟨w, hw, rfl⟩ := Option.map_eq_some_iff.mp h
      obtain ⟨hpending, hsending⟩ := cancel_keeps hw
      exact .callers e c w hc hpending hsending fun hacc => hacc.cancel hw
    · cases h
  | wake e c =>
    obtain ⟨hguard, rfl⟩ := Runs.some_of_guard h
    exact .wake e c hguard.2 (live_iff.mp hguard.1)
  | take e c =>
    simp only [step] at h
    split at h
    · rename_i hguard
      obtain ⟨t, ht, rfl⟩ := Option.map_eq_some_iff.mp h
      exact steps_take hP hsys hguard.2 ht
    · cases h
  | sealCopy e c i =>
    simp only [step] at h
    split at h
    · rename_i hguard
      exact steps_sealCopy hguard.2 h
    · cases h
  | written e c i =>
    simp only [step] at h
    split at h
    · rename_i hguard
      split at h
      · rename_i x hx
        cases h
        exact .complete e c i _ (sys.ends e).shared hguard.2 hx (.inl rfl)
          (.refl (hsys.steady e))
      · cases h
    · cases h
  | writeFails e c i inWrite =>
    simp only [step] at h
    split at h
    · rename_i hguard
      split at h
      · cases h
      rename_i x hx
      obtain ⟨closure, hclosure, rfl⟩ := Option.map_eq_some_iff.mp h
      refine .complete e c i x _ hguard.2 hx (.inr (by rw [hclosure]; rfl))
        (failPath_steers (hsys.steady e) ?_)
      split
      · exact hP.write _
      · exact hP.connection _
    · cases h
  | media e c header payload bad =>
    simp only [step] at h
    split at h
    · cases h
    rename_i hguard
    rw [not_or] at hguard
    split at h
    · cases h
    · rename_i sys'' hmedia
      cases h
      exact steps_media hP hsys hguard.1 hmedia
  | arrive e k c n =>
    simp only [step] at h
    split at h
    · rename_i hc
      exact steps_arrive hc h
    · cases h
  | lossy e k i =>
    simp only [step] at h
    split at h
    · cases h
    obtain ⟨m, hm, rfl⟩ := Option.map_eq_some_iff.mp h
    exact .lossy e k m (List.mem_of_getElem? hm)
  | forward e k i =>
    simp only [step] at h
    split at h
    · rename_i r id hr hid
      obtain ⟨-, rfl⟩ := Runs.some_of_guard h
      exact .forward e k i id r hr _ rfl
    · cases h
  | notice e k =>
    simp only [step] at h
    split at h
    · rename_i closure id hclosure hid
      obtain ⟨-, rfl⟩ := Runs.some_of_guard h
      exact .notice e id _
    · cases h
  | process e bad =>
    simp only [step] at h
    split at h
    · obtain ⟨t, ht, rfl⟩ := Option.map_eq_some_iff.mp h
      exact steps_process hP hsys htrust ht
    · cases h
  | deliver e bad =>
    simp only [step] at h
    split at h
    · obtain ⟨t, ht, rfl⟩ := Option.map_eq_some_iff.mp h
      obtain ⟨c, -, ht⟩ := Option.bind_eq_some_iff.mp ht
      exact steps_deliver hP hsys ht
    · cases h
  | heartbeat e bad =>
    obtain ⟨-, rfl⟩ := Runs.some_of_guard h
    exact .route e _ (heartbeat_steers hP.connection hP.datagram (hsys.steady e))
  | consume e =>
    obtain ⟨-, rfl⟩ := Runs.some_of_guard h
    exact .consume e

/-! ### Soundness -/

theorem Sound.moves (h : sys.Sound) {r s : Shared} (hroutes : r.routes = (sys.ends e).shared.routes)
    (hshutdown : r.shutdown = (sys.ends e).shared.shutdown)
    (hterminal : r.terminal = (sys.ends e).shared.terminal)
    (hcalls : r.calls = (sys.ends e).shared.calls) (hs : Steers P r s) :
    Moves P (sys.ends e).shared s :=
  .of_steers (h.calm e) hroutes hshutdown (.inl hterminal) hcalls hs

theorem Sound.commit_same (h : sys.Sound) (hshared : t.shared = (sys.ends e).shared)
    (hrecords : t.records = (sys.ends e).records) : (sys.commit e t).Sound := by
  refine h.commit (P := fun _ => True) ?_ ?_
  · exact .of_eq (h.calm e) (h.steady e) (by rw [hshared]) (by rw [hshared])
      (.inl (by rw [hshared])) (by rw [hshared])
  · rw [hshared, hrecords]
    exact h.allocated e

theorem commit_conns_eq (h : t.shared.calls = []) : (sys.commit e t).conns = sys.conns := by
  simp [System.commit, h]

theorem either (d e : Bool) : d = e ∨ d = !e := by
  cases d <;> cases e <;> simp

theorem commit_setConn {k : ℕ} {f : (ℕ → Conn) → Conn} (hcalls : t.shared.calls = [])
    (hsys' : sys' = (sys.commit e t).setConn k (f (sys.commit e t).conns)) :
    sys'.conns = Function.update sys.conns k (f sys.conns) ∧ sys'.ends e = t ∧
      sys'.ends (!e) = sys.ends (!e) := by
  subst hsys'
  refine ⟨by simp [System.setConn, commit_conns_eq hcalls], ?_, commit_other e t sys⟩
  refine (commit_self e t sys).trans ?_
  rw [End.onShared, ← hcalls]

theorem Sound.attach (h : sys.Sound) {native : Native} {s : Shared} {id : ℕ}
    (ha : Attached (sys.host g e []) native (sys.ends e).shared s id) :
    ((sys.commit e { sys.ends e with shared := s }).setConn native.conn
      (((sys.commit e { sys.ends e with shared := s }).conns native.conn).setPathId e id)).Sound := by
  have hcalls : s.calls = [] := by
    rw [ha.eq]
    exact h.calm e
  have hclosed : (sys.conns native.conn).closed.isSome = false := ha.opened
  generalize hsys' : (sys.commit e { sys.ends e with shared := s }).setConn native.conn
    (((sys.commit e { sys.ends e with shared := s }).conns native.conn).setPathId e id) = sys'
  obtain ⟨hconns, hself, hother⟩ := commit_setConn
    (f := fun conns => (conns native.conn).setPathId e id) hcalls hsys'.symm
  have hconn : ∀ k, sys'.conns k =
      if k = native.conn then (sys.conns k).setPathId e id else sys.conns k := by
    intro k
    rw [hconns, Function.update_apply]
    split
    · rename_i hk
      rw [hk]
    · rfl
  refine ⟨fun d => ?_, fun d => ?_, fun d => ?_, fun d => ?_, fun d => ?_, fun d k m hm => ?_⟩
  · rcases either d e with rfl | rfl
    · rw [hself]
      exact hcalls
    · rw [hother]
      exact h.calm _
  · rcases either d e with rfl | rfl
    · rw [hself]
      have := ha.steady (h.steady d)
      exact { this with }
    · rw [hother]
      exact h.steady _
  · rcases either d e with rfl | rfl
    · rw [hself]
      intro c hc
      rw [ha.eq]
      exact h.allocated d c hc
    · rw [hother]
      exact h.allocated _
  · intro kind p hp
    rw [hconn]
    rcases either d e with rfl | rfl
    · rw [hself] at hp
      cases kind with
      | relay =>
        rw [show s.routes.paths .relay = _ from ha.relay] at hp
        rw [if_neg (ha.fresh .relay p hp)]
        exact h.homed d .relay p hp
      | direct =>
        rw [show s.routes.paths .direct = _ from ha.direct] at hp
        cases hp
        simp [Path.new, Conn.setPathId]
    · rw [hother] at hp
      have := h.homed _ kind p hp
      split
      · simpa [Conn.setPathId] using this
      · exact this
  · intro k i hi
    rw [hconn] at hi ⊢
    rcases either d e with rfl | rfl
    · rw [hself]
      by_cases hk : k = native.conn
      · subst hk
        exact .inr ⟨.direct, _, ha.direct, rfl⟩
      · rw [if_neg hk] at hi ⊢
        rcases h.attached d k i hi with hc | ⟨kind, p, hp, hpk⟩
        · exact .inl hc
        · cases kind with
          | relay => exact .inr ⟨.relay, p, by rw [← hp]; exact ha.relay, hpk⟩
          | direct =>
            rw [ha.vacant] at hp
            cases hp
    · rw [hother]
      have hi' : (sys.conns k).pathId (!e) = some i := by
        split at hi
        · simpa [Conn.setPathId] using hi
        · exact hi
      refine (h.attached _ k i hi').imp_left fun hc => ?_
      split <;> exact hc
  · rw [hconn] at hm
    split at hm <;> exact h.bag d k m hm

theorem Sound.steps (h : sys.Sound) (hs : Steps g P sys sys') : sys'.Sound := by
  cases hs with
  | tick time => exact { h with }
  | conn k established closed hclosed => exact h.setConn rfl hclosed fun e => h.bag e k
  | route e s hs =>
    refine h.commit (h.moves rfl rfl rfl rfl hs) fun c hc => ?_
    show s.allocated c = _
    rw [hs.allocated]
    exact h.allocated e c hc
  | attach e native s id hs => exact h.attach hs
  | report e =>
    refine h.commit (P := fun _ => True) ?_ (h.allocated e)
    exact .of_eq (h.calm e) (h.steady e) rfl rfl (.inr rfl) rfl
  | callers e c w hc hpending hsending haccounted => exact h.commit_same rfl rfl
  | wake e c hc hlive =>
    refine h.commit_same ?_ ?_
    all_goals
      unfold End.wake
      dsimp only
      split <;> rfl
  | number e c request rest hc hqueue hroom hmax =>
    refine h.commit (P := fun _ => True) (.of_eq (h.calm e) (h.steady e) rfl rfl (.inl rfl) rfl) ?_
    intro d hd
    by_cases hdc : d = c
    · subst hdc
      simp [Shared.allocate, h.allocated e d hd]
    · simpa [Shared.allocate, hdc] using h.allocated e d hd
  | sealCopy e c i x hc hx hroom t ht =>
    have hsound : (sys.commit e t).Sound := by
      subst ht
      exact h.commit_same rfl rfl
    exact hsound.setConn rfl (fun hc => hc) fun d => hsound.bag d x.conn
  | complete e c i x s hc hx hdone hs =>
    refine h.commit (h.moves rfl rfl rfl rfl hs) fun d hd => ?_
    show s.allocated d = _
    rw [hs.allocated]
    exact h.allocated e d hd
  | mediaLost e c s hc hs =>
    refine h.commit (h.moves (r := (sys.ends e).shared.allocate c) rfl rfl rfl rfl hs) ?_
    intro d hd
    have hdc : d ≠ c := by
      rintro rfl
      exact hc hd
    show s.allocated d = _
    rw [hs.allocated]
    simpa [Shared.allocate, hdc] using h.allocated e d hd
  | mediaSent e c header payload y hc hy t ht =>
    have hsound : (sys.commit e t).Sound := by
      subst ht
      refine h.commit (P := fun _ => True)
        (.of_eq (h.calm e) (h.steady e) rfl rfl (.inl rfl) rfl) fun d hd => ?_
      have hdc : d ≠ c := by
        rintro rfl
        exact hc hd
      simpa [Shared.allocate, hdc] using h.allocated e d hd
    refine hsound.setConn rfl (fun hc => hc) fun d m hm => ?_
    rcases either d e with rfl | rfl
    · simp only [Conn.addToBag, Function.update_self, List.mem_append, List.mem_singleton] at hm
      rcases hm with hm | rfl
      · exact hsound.bag _ _ m hm
      · exact hc
    · simp only [Conn.addToBag, Function.update_of_ne (Bool.not_ne_self e)] at hm
      exact hsound.bag _ _ m hm
  | arrive e k c n x hc hx hopen harrives =>
    exact h.setConn rfl (fun hc => hc) fun d => h.bag d k
  | lossy e k m hm => exact h.setConn rfl (fun hc => hc) fun d => h.bag d k
  | forward e k i id r hr t ht =>
    have hshared : t.shared = (sys.ends e).shared := by rw [ht]
    have hcalls : t.shared.calls = [] := by
      rw [hshared]
      exact h.calm e
    have hsound : (sys.commit e t).Sound := h.commit_same hshared (by rw [ht])
    refine hsound.setConn ?_ ?_ fun d => h.bag d k
    · rw [commit_conns_eq hcalls]
      rfl
    · rw [commit_conns_eq hcalls]
      exact fun hc => hc
  | notice e id error => exact h.commit_same rfl rfl
  | failed e id error rest s hevents hs =>
    refine h.commit (h.moves rfl rfl rfl rfl hs) fun c hc => ?_
    show s.allocated c = _
    rw [hs.allocated]
    exact h.allocated e c hc
  | received e id m rest t r s hevents ht hres hs =>
    obtain ⟨a, hst, -⟩ := ht.shared
    have hall := hst.trans hs
    refine h.commit (h.moves (r := (sys.ends e).shared.withAcks a) rfl rfl rfl rfl hall) ?_
    intro c hc
    show s.allocated c = _
    rw [hall.allocated, ht.records]
    exact h.allocated e c hc
  | deliver e c m s hm inbox hpending hbytes hs =>
    refine h.commit (h.moves (r := (sys.ends e).shared.count c) rfl rfl rfl rfl hs) fun d hd => ?_
    show s.allocated d = _
    rw [hs.allocated]
    exact h.allocated e d hd
  | consume e => exact h.commit_same rfl rfl

end System

end Multipath

end NebulaDesk
