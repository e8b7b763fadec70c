/-
Honest ends never fail each other.

Every message under way can be read (`Spoken`), the inbox takes it in without an
error and holds every record it has not received (`receive_ok`), so that no
check of the protocol ever fails (`Tame`).  The main result is `honest_ends`.
-/
import NebulaDesk.Multipath.Bounds

namespace NebulaDesk

namespace Multipath

open Shared Relation

namespace System

variable {g : Setting} {P : TransportError → Prop} {sys sys' : System} {e : Bool}

/-! ### What is under way can be read -/

/-- Every message under way parses. -/
def Spoken (sys : System) : Prop := ∀ e m, sys.Under e m → ∃ frame, parse m = .ok frame

/-- Where the events, the messages under way, the terminal error and the output of a
later system come from. -/
structure Passes (P : TransportError → Prop) (sys sys' : System) : Prop where
  events : ∀ e, ∀ ev ∈ (sys'.ends e).events, ev ∈ (sys.ends e).events ∨
    (∃ k id, ∃ r ∈ (sys.conns k).opened e, ev = event id r) ∨
      ∃ id error, ev = .failed id (.connection error)
  opened : ∀ e k, ∀ r ∈ (sys'.conns k).opened e, r ∈ (sys.conns k).opened e ∨
    (∃ c n x, r = .ok (Copy.message x c n)) ∨ (∃ error, r = .error (.crypto error)) ∨
      ∃ m ∈ (sys.conns k).bag (!e), r = .ok m
  bag : ∀ e k, ∀ m ∈ (sys'.conns k).bag e, m ∈ (sys.conns k).bag e ∨ ∃ frame, parse m = .ok frame
  terminal : ∀ e error, (sys'.ends e).shared.terminal = some error →
    (sys.ends e).shared.terminal = some error ∨ P error
  output : ∀ e error, .error error ∈ (sys'.ends e).output → .error error ∈ (sys.ends e).output ∨
    error = (sys.ends e).shared.terminal.getD .closed

theorem Passes.refl (sys : System) : Passes P sys sys :=
  ⟨fun _ _ h => .inl h, fun _ _ _ h => .inl h, fun _ _ _ h => .inl h, fun _ _ h => .inl h,
    fun _ _ h => .inl h⟩

theorem Passes.commit {t : End}
    (hsaid : ∀ conn payload, .datagram conn payload ∈ t.shared.calls →
      ∃ frame, parse ⟨.audio, MsgHeader.new .ping 0 0, payload⟩ = .ok frame)
    (hterminal : ∀ error, t.shared.terminal = some error →
      (sys.ends e).shared.terminal = some error ∨ P error)
    (hevents : ∀ ev ∈ t.events, ev ∈ (sys.ends e).events ∨
      (∃ k id, ∃ r ∈ (sys.conns k).opened e, ev = event id r) ∨
        ∃ id error, ev = .failed id (.connection error))
    (houtput : ∀ error, .error error ∈ t.output → .error error ∈ (sys.ends e).output ∨
      error = (sys.ends e).shared.terminal.getD .closed) : Passes P sys (sys.commit e t) := by
  have hconns := commit_conns e t sys
  have hsame := Passes.refl (P := P) sys
  refine ⟨fun b => ?_, fun b k r hr => ?_, fun b k m hm => ?_, fun b => ?_, fun b => ?_⟩
  · rcases either b e with rfl | rfl
    · rw [commit_self]
      exact hevents
    · rw [commit_other]
      exact hsame.events _
  · rw [hconns.opened] at hr
    exact .inl hr
  · rcases either b e with rfl | rfl
    · refine (hconns.bag k m hm).imp_right ?_
      rintro ⟨payload, hpayload, rfl⟩
      exact hsaid k payload hpayload
    · rw [hconns.others] at hm
      exact .inl hm
  · rcases either b e with rfl | rfl
    · rw [commit_self]
      exact hterminal
    · rw [commit_other]
      exact hsame.terminal _
  · rcases either b e with rfl | rfl
    · rw [commit_self]
      exact houtput
    · rw [commit_other]
      exact hsame.output _

theorem Passes.of_moves {t : End} (hm : Moves P (sys.ends e).shared t.shared)
    (hevents : ∀ ev ∈ t.events, ev ∈ (sys.ends e).events ∨
      (∃ k id, ∃ r ∈ (sys.conns k).opened e, ev = event id r) ∨
        ∃ id error, ev = .failed id (.connection error))
    (houtput : ∀ error, .error error ∈ t.output → .error error ∈ (sys.ends e).output ∨
      error = (sys.ends e).shared.terminal.getD .closed) : Passes P sys (sys.commit e t) := by
  refine .commit (fun conn payload hcall => ?_) (fun error herror => ?_) hevents houtput
  · obtain ⟨kind, nonce, hfits, rfl⟩ := hm.said conn payload hcall
    obtain ⟨n, hn⟩ := parse_internalPayload hfits (MsgHeader.new .ping 0 0) rfl t.shared.received
    exact ⟨_, hn⟩
  · rcases hm.terminal with ht | ht | ⟨error', hP, ht⟩
    · exact .inl (ht.symm.trans herror)
    · cases ht.symm.trans herror
    · obtain rfl := Option.some.inj (ht.symm.trans herror)
      exact .inr hP

theorem Passes.setConn {mid : System} {k : ℕ} {conn : Conn} (h : Passes P sys mid)
    (hbag : ∀ e, ∀ m ∈ conn.bag e, m ∈ (mid.conns k).bag e ∨ ∃ frame, parse m = .ok frame)
    (hopened : ∀ e, ∀ r ∈ conn.opened e, r ∈ (mid.conns k).opened e ∨
      (∃ c n x, r = .ok (Copy.message x c n)) ∨ (∃ error, r = .error (.crypto error)) ∨
        ∃ m ∈ (sys.conns k).bag (!e), r = .ok m) : Passes P sys (mid.setConn k conn) := by
  refine ⟨h.events, fun b j r hr => ?_, fun b j m hm => ?_, h.terminal, h.output⟩
  all_goals by_cases hjk : j = k
  · subst hjk
    rw [setConn_self] at hr
    exact (hopened b r hr).elim (h.opened b j r) .inr
  · rw [setConn_of_ne hjk] at hr
    exact h.opened b j r hr
  · subst hjk
    rw [setConn_self] at hm
    exact (hbag b m hm).elim (h.bag b j m) .inr
  · rw [setConn_of_ne hjk] at hm
    exact h.bag b j m hm

/-- **What a step passes on.** -/
theorem passes_of_steps (hsound : sys.Sound) (hs : Steps g P sys sys') : Passes P sys sys' := by
  have hmoves : ∀ (e : Bool) {s : Shared}, s.routes = (sys.ends e).shared.routes →
      s.shutdown = (sys.ends e).shared.shutdown →
      (s.terminal = (sys.ends e).shared.terminal ∨ s.terminal = none) →
      s.calls = (sys.ends e).shared.calls → Moves P (sys.ends e).shared s :=
    fun e => .of_eq (hsound.calm e) (hsound.steady e)
  have hquiet : ∀ {e : Bool} {t : End}, Moves P (sys.ends e).shared t.shared →
      t.events = (sys.ends e).events → t.output = (sys.ends e).output →
      Passes P sys (sys.commit e t) :=
    fun hm hevents houtput => .of_moves hm (fun _ hev => .inl (hevents ▸ hev))
      fun _ herror => .inl (houtput ▸ herror)
  cases hs with
  | tick time => exact { Passes.refl sys with }
  | conn k established closed hclosed =>
    exact (Passes.refl sys).setConn (fun _ _ hm => .inl hm) fun _ _ hr => .inl hr
  | route e s hs => exact hquiet (hsound.moves rfl rfl rfl rfl hs) rfl rfl
  | attach e native s id hs =>
    have hcalls : s.calls = [] := by
      rw [hs.eq]
      exact hsound.calm e
    have hterminal : s.terminal = (sys.ends e).shared.terminal := by rw [hs.eq]; rfl
    have hpasses : Passes P sys (sys.commit e { sys.ends e with shared := s }) := by
      refine .commit (fun conn payload hcall => ?_) (fun error herror => ?_) (fun _ hev => .inl hev)
        fun _ ho => .inl ho
      · have hcall : NativeCall.datagram conn payload ∈ s.calls := hcall
        rw [hcalls] at hcall
        cases hcall
      · exact .inl (hterminal.symm.trans herror)
    exact hpasses.setConn (fun _ _ hm => .inl hm) fun _ _ hr => .inl hr
  | report e =>
    refine .of_moves (hmoves e rfl rfl (.inr rfl) rfl) (fun _ hev => .inl hev) fun error ho => ?_
    exact (List.mem_append.mp ho).imp_right fun ho => Except.error.inj (List.mem_singleton.mp ho)
  | callers e c w hc hpending hsending haccounted =>
    exact hquiet (hmoves e rfl rfl (.inl rfl) rfl) rfl rfl
  | wake e c hc hlive =>
    unfold End.wake
    split <;> exact hquiet (hmoves e rfl rfl (.inl rfl) rfl) rfl rfl
  | number e c request rest hc hqueue hroom hmax =>
    exact hquiet (hmoves e rfl rfl (.inl rfl) rfl) rfl rfl
  | sealCopy e c i x hc hx hroom t ht =>
    have hpasses : Passes P sys (sys.commit e t) := by
      subst ht
      exact hquiet (hmoves e rfl rfl (.inl rfl) rfl) rfl rfl
    exact hpasses.setConn (fun _ _ hm => .inl hm) fun _ _ hr => .inl hr
  | complete e c i x s hc hx hdone hs => exact hquiet (hsound.moves rfl rfl rfl rfl hs) rfl rfl
  | mediaLost e c s hc hs =>
    exact hquiet (hsound.moves (r := (sys.ends e).shared.allocate c) rfl rfl rfl rfl hs) rfl rfl
  | mediaSent e c header payload y hc hy t ht =>
    have hpasses : Passes P sys (sys.commit e t) := by
      subst ht
      exact hquiet (hmoves e rfl rfl (.inl rfl) rfl) rfl rfl
    refine hpasses.setConn (fun d m hm => ?_) fun _ _ hr => .inl hr
    simp only [Conn.addToBag] at hm
    by_cases hde : d = e
    · subst hde
      rw [Function.update_self] at hm
      refine (List.mem_append.mp hm).imp_right fun hm => ?_
      obtain rfl := List.mem_singleton.mp hm
      exact ⟨_, parse_envelope _ _ _ _ _⟩
    · rw [Function.update_of_ne hde] at hm
      exact .inl hm
  | arrive e k c n x hc hx hopen harrives =>
    refine (Passes.refl sys).setConn (fun _ _ hm => .inl hm) fun d r hr => ?_
    simp only [Conn.setOpened, Conn.setLane] at hr
    by_cases hde : d = !e
    · subst hde
      rw [Function.update_self] at hr
      refine (List.mem_append.mp hr).imp_right fun hr => ?_
      have hr := List.mem_singleton.mp hr
      split at hr
      · exact .inl ⟨_, _, _, hr⟩
      · exact .inr (.inl ⟨_, hr⟩)
    · rw [Function.update_of_ne hde] at hr
      exact .inl hr
  | lossy e k m hm =>
    refine (Passes.refl sys).setConn (fun _ _ hm => .inl hm) fun d r hr => ?_
    simp only [Conn.setOpened] at hr
    by_cases hde : d = !e
    · subst hde
      rw [Function.update_self] at hr
      refine (List.mem_append.mp hr).imp_right fun hr => .inr (.inr ⟨m, ?_, List.mem_singleton.mp hr⟩)
      rwa [Bool.not_not]
    · rw [Function.update_of_ne hde] at hr
      exact .inl hr
  | forward e k i id r hr t ht =>
    have hpasses : Passes P sys (sys.commit e t) := by
      subst ht
      refine .of_moves (hmoves e rfl rfl (.inl rfl) rfl) (fun ev hev => ?_) fun _ ho => .inl ho
      refine (List.mem_append.mp hev).imp_right fun hev => .inl ⟨k, id, r, ?_, ?_⟩
      · exact List.mem_of_getElem? hr
      · exact List.mem_singleton.mp hev
    have hopened := (commit_conns e t sys).opened k
    have hbag : ((sys.commit e t).conns k).bag = (sys.conns k).bag := by
      rw [commit_conns_eq (by subst ht; exact hsound.calm e)]
    refine hpasses.setConn (fun d m hm => .inl (by rw [hbag]; exact hm)) fun d r hr => .inl ?_
    rw [hopened]
    simp only [Conn.setOpened] at hr
    by_cases hde : d = e
    · subst hde
      rw [Function.update_self] at hr
      exact List.mem_of_mem_eraseIdx hr
    · rwa [Function.update_of_ne hde] at hr
  | notice e id error =>
    refine .of_moves (hmoves e rfl rfl (.inl rfl) rfl) (fun ev hev => ?_) fun _ ho => .inl ho
    refine (List.mem_append.mp hev).imp_right fun hev => .inr ⟨id, error, ?_⟩
    exact List.mem_singleton.mp hev
  | failed e id error rest s hevents hs =>
    refine .of_moves (hsound.moves rfl rfl rfl rfl hs) (fun ev hev => .inl ?_) fun _ ho => .inl ho
    rw [hevents]
    exact List.mem_cons_of_mem _ hev
  | received e id m rest t r s hevents ht hres hs =>
    obtain ⟨a, hst, -⟩ := ht.shared
    refine .of_moves (hsound.moves
      (r := (sys.ends e).shared.withAcks a) rfl rfl rfl rfl (hst.trans hs))
      (fun ev hev => .inl ?_) fun error ho => .inl (ht.errors error ho)
    have hev : ev ∈ t.events := hev
    rw [show t.events = rest from ht.events] at hev
    rw [hevents]
    exact List.mem_cons_of_mem _ hev
  | deliver e c m s hm inbox hpending hbytes hs =>
    refine .of_moves (hsound.moves (r := (sys.ends e).shared.count c) rfl rfl rfl rfl hs)
      (fun _ hev => .inl hev) fun error ho => .inl ?_
    simpa using ho
  | consume e => exact hquiet (hmoves e rfl rfl (.inl rfl) rfl) rfl rfl

theorem Spoken.passes (h : sys.Spoken) (hp : Passes P sys sys') : sys'.Spoken := by
  rintro e m (⟨k, hk⟩ | ⟨k, hk⟩ | ⟨id, hid⟩)
  · exact (hp.bag _ k m hk).elim (fun hk => h e m (.inl ⟨k, hk⟩)) fun hframe => hframe
  · rcases hp.opened e k _ hk with hk | ⟨c, n, x, hx⟩ | ⟨error, hx⟩ | ⟨m', hm', hx⟩
    · exact h e m (.inr (.inl ⟨k, hk⟩))
    · cases hx
      exact ⟨_, parse_envelope _ _ _ _ _⟩
    · cases hx
    · cases hx
      exact h e m (.inl ⟨k, hm'⟩)
  · rcases hp.events e _ hid with hid | ⟨k, id', r, hr, hx⟩ | ⟨id', error, hx⟩
    · exact h e m (.inr (.inr ⟨id, hid⟩))
    · cases r with
      | ok m' =>
        obtain rfl := (Event.received.inj hx).2
        exact h e m (.inr (.inl ⟨k, hr⟩))
      | error error => cases hx
    · cases hx

/-! ### Taking in what is under way -/

variable {m : Incoming}

theorem length_of_parse_internal {kind : InternalKind} {nonce : ℕ} {bytes : List UInt8}
    (h : parse m = .ok (.internal kind nonce bytes)) : bytes.length = reliable.length * 8 := by
  have hinternal : ∀ kind', parseInternal m kind' = .ok (.internal kind nonce bytes) →
      bytes.length = reliable.length * 8 := by
    intro kind' hkind
    unfold parseInternal at hkind
    dsimp only at hkind
    generalize (if kind' = .ack then 5 else 13) = offset at hkind
    split at hkind
    · cases hkind
    split at hkind
    · cases hkind
    · rename_i hlen
      rw [not_ne_iff] at hlen
      cases hkind
      rw [List.length_drop, hlen]
      omega
  unfold parse at h
  split at h
  · cases h
  split at h
  · split at h <;> cases h
  · exact hinternal _ h
  · exact hinternal _ h
  · exact hinternal _ h
  · cases h

theorem readAcks_ok (hl : sys.Linked) (hm : sys.Under e m) {kind : InternalKind}
    {nonce : ℕ} {bytes : List UInt8} (hparse : parse m = .ok (.internal kind nonce bytes)) :
    ((sys.ends e).shared.readAcks bytes).2 = .ok () := by
  unfold readAcks
  rw [if_neg (by rw [length_of_parse_internal hparse]; simp)]
  refine readAcksFrom_ok _ _ _ fun i c hi => ?_
  have hc : c ∈ reliable := List.mem_of_getElem? hi
  have hack : ackOf c bytes ∈ (sys.link e c).acks := ⟨m, hm, kind, nonce, bytes, hparse, rfl⟩
  have hle := (hl.bounded e c hc).acks _ hack
  have hrec : (sys.link e c).received ≤ ((sys.ends e).records c).length :=
    (hl.genuine e c hc).received_le
  rw [getElem?_reliable hi, hl.sound.allocated e c hc]
  exact hle.trans hrec

theorem record_of_queued (hl : sys.Linked) {id sequence epoch : ℕ}
    {payload : List UInt8} (hm : Event.received id m ∈ (sys.ends e).events)
    (hc : m.channel ∈ reliable) (hparse : parse m = .ok (.data sequence epoch payload)) :
    ∃ r, ((sys.ends !e).records m.channel)[sequence]? = some r ∧ r.payload = payload ∧
      unwrap sequence r.payload m = stamp m.channel sequence r := by
  have hself : (sys.link (!e) m.channel).toRx = (sys.ends e).rx m.channel := by simp [link]
  have hg := hl.genuine (!e) m.channel hc
  obtain ⟨s, hcarries⟩ := hg.queued m (by
    rw [hself]
    exact ⟨rfl, id, hm⟩)
  obtain ⟨epoch', r, hr, -, hparse', hstamp⟩ := hcarries.parse hg.bound
  rw [hparse] at hparse'
  cases hparse'
  exact ⟨r, hr, rfl, hstamp⟩

/-- A record under way is neither outside the window nor in conflict with a copy
that is held, and there is room for it. -/
theorem receiveReliable_ok (hl : sys.Linked) (hw : sys.Weighed) {id sequence epoch : ℕ}
    {payload : List UInt8} (hm : Event.received id m ∈ (sys.ends e).events)
    (hc : m.channel ∈ reliable) (hparse : parse m = .ok (.data sequence epoch payload)) (h : Host)
    (t : End) (hnext : t.shared.received m.channel = (sys.ends e).shared.received m.channel)
    (hinbox : t.inbox = (sys.ends e).inbox) :
    (t.receiveReliable h id sequence (unwrap sequence payload m)).2 = .ok () ∧
      ((sys.ends e).shared.received m.channel ≤ sequence →
        sequence ∈ ((t.receiveReliable h id sequence (unwrap sequence payload m)).1.inbox.pending
          m.channel).map Prod.fst) := by
  have hself : (sys.link (!e) m.channel).toRx = (sys.ends e).rx m.channel := by simp [link]
  have hg := hl.genuine (!e) m.channel hc
  have hb := hl.bounded (!e) m.channel hc
  obtain ⟨r, hr, rfl, hstamp⟩ := record_of_queued hl hm hc hparse
  have hlt : sequence < (sys.link (!e) m.channel).records.length :=
    (List.getElem?_eq_some_iff.mp hr).1
  have hbound := hg.bound
  have hout := hb.outstanding
  have hacked := hb.acked
  rw [hself] at hacked
  have hacked : (sys.link (!e) m.channel).acknowledged ≤
      (sys.ends e).shared.received m.channel := hacked
  have hchannel : (unwrap sequence r.payload m).channel = m.channel := rfl
  unfold End.receiveReliable
  dsimp only
  rw [hchannel, hnext, hinbox]
  split
  · rename_i hold
    exact ⟨rfl, fun hle => absurd hold (Nat.not_lt.mpr hle)⟩
  rename_i hnew
  split
  · rename_i houtside
    omega
  split
  · -- Another copy of the same record is held.
    rename_i previous hprev
    have hmem := mem_of_lookup hprev
    obtain ⟨r', hr', hm'⟩ := hg.held (sequence, previous) (by
      rw [hself]
      exact hmem)
    obtain rfl : r = r' := Option.some.inj (hr.symm.trans hr')
    have hsame : previous = unwrap sequence r.payload m := by
      rw [hstamp]
      exact hm'
    rw [if_neg (by simp [hsame])]
    refine ⟨rfl, fun _ => ?_⟩
    show sequence ∈ (t.inbox.pending m.channel).map Prod.fst
    rw [hinbox]
    exact List.mem_map.mpr ⟨_, hmem, rfl⟩
  · rename_i hnone
    have hfits : (sys.ends e).inbox.bytes + (unwrap sequence r.payload m).payload.length ≤
        byteWindow * reliable.length :=
      bytes_le hl hw hc hr (Nat.le_of_not_lt hnew) (lookup_eq_none hnone)
    split
    · refine ⟨rfl, fun _ => ?_⟩
      simp
    · rename_i hfull
      exact absurd hfits hfull

/-- **A message under way is taken in without an error**, and a record that is
not received is held from then on. -/
theorem receive_ok (hl : sys.Linked) (hw : sys.Weighed) (hspoken : sys.Spoken) {id : ℕ}
    (hm : Event.received id m ∈ (sys.ends e).events) (h : Host) (rest : List Event) :
    (End.receive h id m { sys.ends e with events := rest }).2 = .ok () ∧
      ∀ sequence epoch payload, m.channel ∈ reliable →
        parse m = .ok (.data sequence epoch payload) →
        (sys.ends e).shared.received m.channel ≤ sequence →
        sequence ∈ ((End.receive h id m { sys.ends e with events := rest }).1.inbox.pending
          m.channel).map Prod.fst := by
  have hunder : sys.Under e m := .inr (.inr ⟨id, hm⟩)
  obtain ⟨frame, hparse⟩ := hspoken e m hunder
  unfold End.receive
  rw [hparse]
  cases frame with
  | internal kind nonce bytes =>
    refine ⟨?_, fun _ _ _ _ hdata => by cases hdata⟩
    dsimp only
    unfold End.receiveInternal
    have hok := readAcks_ok hl hunder hparse
    rcases hread : (sys.ends e).shared.readAcks bytes with ⟨s, r⟩
    rw [hread] at hok
    obtain rfl : r = .ok () := hok
    rfl
  | data sequence epoch payload =>
    unfold End.receiveData
    dsimp only
    by_cases hc : m.channel ∈ reliable
    · rw [if_pos hc]
      have hnext : ((sys.ends e).shared.peerReady h id).received m.channel =
          (sys.ends e).shared.received m.channel :=
        congrFun (peerReady_steers (P := fun _ => True) (hl.sound.steady e)).received m.channel
      obtain ⟨hok, hheld⟩ := receiveReliable_ok hl hw hm hc hparse h
        (({ sys.ends e with events := rest } : End).onShared (·.peerReady h id)) hnext rfl
      refine ⟨hok, fun sequence' epoch' payload' _ heq hle => ?_⟩
      cases heq
      exact hheld hle
    · rw [if_neg hc]
      exact ⟨rfl, fun _ _ _ hc' => absurd hc' hc⟩

/-! ### No failure of the protocol -/

/-- A failure of the protocol, other than having no sequence left. -/
def Faults (error : TransportError) : Prop :=
  ∃ text, error = .multipathProtocol text ∧ text ≠ "logical sequence exhausted"

theorem allows_not_faults : Allows fun error => ¬ Faults error := by
  constructor <;> simp [Faults]

/-- No end knows of a failure of the protocol. -/
structure Tame (sys : System) : Prop where
  failed : ∀ e id error, Event.failed id error ∈ (sys.ends e).events → ¬ Faults error
  opened : ∀ e k error, .error error ∈ (sys.conns k).opened e → ¬ Faults error
  terminal : ∀ e error, (sys.ends e).shared.terminal = some error → ¬ Faults error
  output : ∀ e error, .error error ∈ (sys.ends e).output → ¬ Faults error

theorem tame_start (native : Bool → Native) (now : ℕ) : (start native now).Tame where
  failed e id error h := by simp [start, End.start] at h
  opened e k error h := by
    by_cases h0 : k = 0 <;> simp [start, h0, Conn.new] at h
  terminal e error h := by cases h
  output e error h := by simp [start, End.start] at h

theorem Tame.passes (h : sys.Tame) (hp : Passes (fun error => ¬ Faults error) sys sys') :
    sys'.Tame where
  failed e id error hid := by
    rcases hp.events e _ hid with hid | ⟨k, id', r, hr, hx⟩ | ⟨id', error', hx⟩
    · exact h.failed e id error hid
    · cases r with
      | ok m => cases hx
      | error error' =>
        obtain rfl := (Event.failed.inj hx).2
        exact h.opened e k error hr
    · cases hx
      simp [Faults]
  opened e k error hk := by
    rcases hp.opened e k _ hk with hk | ⟨c, n, x, hx⟩ | ⟨error', hx⟩ | ⟨m, hm, hx⟩
    · exact h.opened e k error hk
    · cases hx
    · cases hx
      simp [Faults]
    · cases hx
  terminal e error herror := (hp.terminal e error herror).elim (h.terminal e error) fun hn => hn
  output e error ho := by
    rcases hp.output e error ho with ho | rfl
    · exact h.output e error ho
    · cases hterminal : (sys.ends e).shared.terminal with
      | none => simp [Faults]
      | some error => exact h.terminal e error hterminal

/-! ### Every reachable system -/

structure Honest (sys : System) : Prop where
  linked : sys.Linked
  weighed : sys.Weighed
  spoken : sys.Spoken
  tame : sys.Tame

/-- Neither what waits to be handled nor what is taken in raises a failure of the
protocol. -/
theorem Honest.trusts (h : sys.Honest) : sys.Trusts fun error => ¬ Faults error where
  failed := h.tame.failed
  received := fun e id m rest host error hevents herror => by
    have hm : Event.received id m ∈ (sys.ends e).events := by
      rw [hevents]
      exact List.mem_cons_self
    rw [(receive_ok h.linked h.weighed h.spoken hm host rest).1] at herror
    cases herror

theorem Honest.not_loses (h : sys.Honest) : ¬ sys.Loses := by
  rintro ⟨e, id, m, rest, host, hevents, hc, hlost⟩
  have hm : Event.received id m ∈ (sys.ends e).events := by
    rw [hevents]
    exact List.mem_cons_self
  rcases hlost with herror | ⟨sequence, epoch, payload, hparse, hle, hnew, hfull⟩
  · exact herror (receive_ok h.linked h.weighed h.spoken hm host rest).1
  · obtain ⟨r, hr, rfl, -⟩ := record_of_queued h.linked hm hc hparse
    exact absurd (bytes_le h.linked h.weighed hc hr hle hnew) (Nat.not_le.mpr hfull)

theorem honest_start (native : Bool → Native) (now : ℕ) : (start native now).Honest where
  linked := linked_start native now
  weighed := weighed_start native now
  spoken := fun e m hm => absurd hm (not_under_start native now e m)
  tame := tame_start native now

theorem Honest.step (h : sys.Honest) {a : Action} (hs : step g sys a = some sys') :
    sys'.Honest := by
  have hsteps := step_cases allows_not_faults h.linked.sound h.trusts hs
  have hpasses := passes_of_steps h.linked.sound hsteps
  exact
    { linked := h.linked.steps hsteps
      weighed := h.weighed.steps h.linked hsteps
      spoken := h.spoken.passes hpasses
      tame := h.tame.passes hpasses }

/-- **Invariant.**  Every reachable system is honest. -/
theorem honest_of_reach {native : Bool → Native} {now : ℕ}
    (hr : Runs.Reach (System.step g) (start native now) sys) : sys.Honest :=
  hr.invariant (honest_start native now) fun _ _ _ h hs => h.step hs

theorem send_large (t : End) (c : Channel) {request : Request} (hlarge : byteWindow < request.weight) :
    t.send c request = .error
      (if request.payload.length + (envelopeLen + headerLen + aeadTagLen) > t.shared.maxRecord then
        .recordTooLarge (request.payload.length + (envelopeLen + headerLen + aeadTagLen))
          t.shared.maxRecord
      else .recordTooLarge request.weight byteWindow) := by
  have hrefused : checkLen (request.payload.length + envelopeLen) byteWindow =
      .error (.recordTooLarge request.weight byteWindow) := if_pos hlarge
  unfold End.send End.admits
  simp only [hrefused, bind, Except.bind]
  by_cases hmax : request.payload.length + (envelopeLen + headerLen + aeadTagLen) > t.shared.maxRecord
  · rw [checkLen, if_pos hmax, if_pos hmax]
  · rw [checkLen, if_neg hmax, if_neg hmax]

/-- **Honest ends never fail each other.**  Whatever is under way is taken in
without an error and held if it is new; the only failure of the protocol an end
ever sees is that it has no sequence left; what is outstanding on a channel is at
most a window of records and of bytes, and a record above the byte window is not
admitted. -/
theorem honest_ends {native : Bool → Native} {now : ℕ}
    (hr : Runs.Reach (System.step g) (start native now) sys) (e : Bool) :
    (∀ id m, Event.received id m ∈ (sys.ends e).events → ∀ h rest,
      (End.receive h id m { sys.ends e with events := rest }).2 = .ok () ∧
      ∀ sequence epoch payload, m.channel ∈ reliable →
        parse m = .ok (.data sequence epoch payload) →
        (sys.ends e).shared.received m.channel ≤ sequence →
        sequence ∈ ((End.receive h id m { sys.ends e with events := rest }).1.inbox.pending
          m.channel).map Prod.fst) ∧
    (∀ text, (sys.ends e).shared.terminal = some (.multipathProtocol text) ∨
        .error (.multipathProtocol text) ∈ (sys.ends e).output ∨
        (∃ id, Event.failed id (.multipathProtocol text) ∈ (sys.ends e).events) →
      text = "logical sequence exhausted") ∧
    (∀ c ∈ reliable, (sys.ends e).shared.acknowledged c ≤ (sys.ends !e).shared.received c ∧
      (sys.ends !e).shared.received c ≤ (sys.ends e).shared.allocated c ∧
      (sys.ends e).shared.allocated c ≤ (sys.ends e).shared.acknowledged c + window ∧
      ((((sys.ends e).records c).drop ((sys.ends e).shared.acknowledged c)).map
        Request.weight).sum ≤ byteWindow) ∧
    ∀ c request, byteWindow < request.weight → ∃ len limit, limit < len ∧
      (sys.ends e).send c request = .error (.recordTooLarge len limit) := by
  have h := honest_of_reach hr
  refine ⟨fun id m hm => receive_ok h.linked h.weighed h.spoken hm, ?_, ?_, ?_⟩
  · intro text htext
    by_contra hne
    have hfaults : Faults (.multipathProtocol text) := ⟨text, rfl, hne⟩
    rcases htext with hterminal | houtput | ⟨id, hfailed⟩
    · exact h.tame.terminal e _ hterminal hfaults
    · exact h.tame.output e _ houtput hfaults
    · exact h.tame.failed e id _ hfailed hfaults
  · intro c hc
    have hg := h.linked.genuine e c hc
    have hb := h.linked.bounded e c hc
    rw [h.linked.sound.allocated e c hc]
    exact ⟨hb.acked, hg.received_le, hb.outstanding,
      Link.unacknowledged_weight_le hg hb (h.weighed.accounted e c hc).pending_weight_le⟩
  · intro c request hlarge
    rw [send_large _ c hlarge]
    split
    · next hmax => exact ⟨_, _, hmax, rfl⟩
    · exact ⟨_, _, hlarge, rfl⟩

/-- Two records over two paths, the second one with the inbox. -/
theorem honest_ends_control :
    ∃ sys, Runs.Reach (System.step sampleSetting) sampleStart sys ∧
      (sys.ends false).shared.allocated .control = 2 ∧
      (sys.ends true).shared.received .control = 1 ∧ (sys.ends true).events.length = 2 ∧
      ∀ id m, Event.received id m ∈ (sys.ends true).events → ∀ h rest,
        (End.receive h id m { sys.ends true with events := rest }).2 = .ok () := by
  have hrun : (Runs.tryRun (System.step sampleSetting) sampleStart
      (writeSecond .control ++ readSecond .control)).map
        (fun sys => ((sys.ends false).shared.allocated .control,
          (sys.ends true).shared.received .control, (sys.ends true).events.length)) =
      some (2, 1, 2) := by
    decide +kernel
  obtain ⟨sys, hsys, hstate⟩ := Option.map_eq_some_iff.mp hrun
  obtain ⟨hallocated, hstate⟩ := Prod.mk.inj hstate
  obtain ⟨hreceived, hevents⟩ := Prod.mk.inj hstate
  have hreach := Runs.reach_of_tryRun .init hsys
  exact ⟨sys, hreach, hallocated, hreceived, hevents,
    fun id m hm h rest => ((honest_ends hreach true).1 id m hm h rest).1⟩

/-- A record of `n` bytes on a session that has just started. -/
theorem send_replicate {n : ℕ} (hlarge : byteWindow < n + envelopeLen)
    (hfits : n + (envelopeLen + headerLen + aeadTagLen) ≤ 2 ^ 26) :
    ((start (fun _ => { sampleNative with limit := 2 ^ 26 }) 0).ends false).send .file
      ⟨MsgHeader.new .ping 0 0, List.replicate n 0⟩ =
        .error (.recordTooLarge (n + envelopeLen) byteWindow) := by
  have hlen : (List.replicate n (0 : UInt8)).length = n := List.length_replicate
  have hmax : ((start (fun _ => { sampleNative with limit := 2 ^ 26 }) 0).ends false).shared.maxRecord =
      2 ^ 26 := rfl
  generalize List.replicate n (0 : UInt8) = payload at hlen
  subst hlen
  have hweight : byteWindow < (⟨MsgHeader.new .ping 0 0, payload⟩ : Request).weight := hlarge
  rw [send_large _ _ hweight, hmax, if_neg (Nat.not_lt.mpr hfits)]
  rfl

/-- A record above the byte window is refused, also by a session that admits
records of that size and has nothing outstanding. -/
theorem large_record_refused :
    ((start (fun _ => { sampleNative with limit := 2 ^ 26 }) 0).ends false).send .file
      ⟨MsgHeader.new .ping 0 0, List.replicate byteWindow 0⟩ =
        .error (.recordTooLarge (byteWindow + envelopeLen) byteWindow) :=
  send_replicate (Nat.lt_add_of_pos_right (by decide)) (by
    norm_num [byteWindow, envelopeLen, headerLen, aeadTagLen])

end System

end Multipath

end NebulaDesk
