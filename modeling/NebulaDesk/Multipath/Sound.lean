/-
What holds of the two ends beside the records.

`Moves` is what a step of an end can do to its routes, whatever it does to its
counters; `Sound` is the invariant of the whole system that `Moves` keeps: a
selected path is there until the session stops, each path is known under the id
it was attached with, and a connection that is attached no more is closed.
-/
import NebulaDesk.Multipath.Steering
import NebulaDesk.Multipath.System

namespace NebulaDesk

namespace Multipath

open Shared

/-- What a step can do to the routes of an end. -/
structure Moves (P : TransportError → Prop) (s s' : Shared) : Prop where
  steady : s'.Steady
  epoch : s.routes.txEpoch ≤ s'.routes.txEpoch
  live : s'.shutdown = false → s.shutdown = false
  terminal : s'.terminal = s.terminal ∨ s'.terminal = none ∨
    ∃ error, P error ∧ s'.terminal = some error
  kept : s'.shutdown = false → s'.routes.txEpoch = s.routes.txEpoch → s'.selected = s.selected
  known : ∀ kind q, s'.routes.paths kind = some q → ∃ p, s.routes.paths kind = some p ∧ p.Same q
  gone : ∀ kind p, s.routes.paths kind = some p →
    (∃ q, s'.routes.paths kind = some q ∧ p.Same q) ∨ Closes s'.calls p.native.conn
  said : ∀ conn payload, .datagram conn payload ∈ s'.calls →
    ∃ kind nonce, InternalKind.Fits kind nonce ∧ payload = internalPayload kind nonce s'.received

/-- The selected path stays until the epoch grows. -/
structure Keeps (s s' : Shared) : Prop where
  epoch : s.routes.txEpoch ≤ s'.routes.txEpoch
  live : s'.shutdown = false → s.shutdown = false
  kept : s'.shutdown = false → s'.routes.txEpoch = s.routes.txEpoch → s'.selected = s.selected

variable {P : TransportError → Prop} {s s' : Shared} {e : Bool} {t : End}
  {sys : System}

theorem Keeps.refl (s : Shared) : Keeps s s := ⟨le_rfl, fun h => h, fun _ _ => rfl⟩

theorem Moves.of_steers {r : Shared} (hcalm : s.calls = []) (hroutes : r.routes = s.routes)
    (hshutdown : r.shutdown = s.shutdown) (hterminal : r.terminal = s.terminal ∨ r.terminal = none)
    (hcalls : r.calls = s.calls) (h : Steers P r s') : Moves P s s' where
  steady := h.steady
  epoch := hroutes ▸ h.epoch
  live := fun hl => hshutdown ▸ h.live hl
  terminal := by
    rcases h.terminal with ht | ht
    · rcases hterminal with hr | hr
      · exact .inl (ht.trans hr)
      · exact .inr (.inl (ht.trans hr))
    · exact .inr (.inr ht)
  kept := by
    intro hl hepoch
    rw [h.kept hl (hroutes ▸ hepoch)]
    simp only [selected, hroutes]
  known := hroutes ▸ h.known
  gone := by
    obtain ⟨new, hnew, hgone, -⟩ := h.calls
    rw [hcalls, hcalm, List.nil_append] at hnew
    rw [hnew, ← hroutes]
    exact hgone
  said := by
    obtain ⟨new, hnew, -, hdata⟩ := h.calls
    rw [hcalls, hcalm, List.nil_append] at hnew
    rw [hnew, h.received]
    exact hdata

theorem Moves.of_eq (hcalm : s.calls = []) (hs : s.Steady) (hroutes : s'.routes = s.routes)
    (hshutdown : s'.shutdown = s.shutdown)
    (hterminal : s'.terminal = s.terminal ∨ s'.terminal = none)
    (hcalls : s'.calls = s.calls) : Moves P s s' := by
  refine .of_steers hcalm hroutes hshutdown hterminal hcalls (.refl ⟨?_, ?_, ?_⟩)
  · rw [hroutes]
    exact hs.seated
  · rw [hroutes, hshutdown]
    exact hs.present
  · rw [hroutes, hshutdown]
    exact hs.gone

/-! ### Native calls -/

/-- What carrying out native calls of `e` does to the connections. -/
structure Performed (e : Bool) (calls : List NativeCall) (conns conns' : ℕ → Conn) : Prop where
  lanes : ∀ k, (conns' k).lanes = (conns k).lanes
  opened : ∀ k, (conns' k).opened = (conns k).opened
  pathId : ∀ k, (conns' k).pathId = (conns k).pathId
  established : ∀ k, (conns' k).established = (conns k).established
  others : ∀ k, (conns' k).bag (!e) = (conns k).bag (!e)
  bag : ∀ k, ∀ m ∈ (conns' k).bag e, m ∈ (conns k).bag e ∨ ∃ payload,
    NativeCall.datagram k payload ∈ calls ∧ m = ⟨.audio, MsgHeader.new .ping 0 0, payload⟩
  closed : ∀ k, (conns k).closed.isSome → (conns' k).closed.isSome
  closes : ∀ k, Closes calls k → (conns' k).closed.isSome

theorem perform_cases (e : Bool) (call : NativeCall) (conns : ℕ → Conn) :
    Performed e [call] conns (perform e conns call) := by
  cases call with
  | close j code reason =>
    have hself : ∀ k, perform e conns (.close j code reason) k =
        if k = j then (conns k).shut ⟨some e, code⟩ else conns k := by
      intro k
      by_cases hk : k = j
      · subst hk
        simp [perform]
      · simp [perform, hk]
    refine ⟨?_, ?_, ?_, ?_, ?_, ?_, ?_, ?_⟩ <;> intro k <;> rw [hself k] <;> split
    all_goals first
      | rfl
      | exact fun h => h
      | (intro m hm; exact .inl hm)
      | (intro _; simp [Conn.shut])
      | skip
    · rintro ⟨code', reason', hmem⟩
      obtain ⟨rfl, -, -⟩ := NativeCall.close.inj (List.mem_singleton.mp hmem)
      exact absurd rfl ‹¬ _›
  | datagram j payload =>
    have hself : ∀ k, perform e conns (.datagram j payload) k =
        if k = j then (conns k).addToBag e ⟨.audio, MsgHeader.new .ping 0 0, payload⟩
        else conns k := by
      intro k
      by_cases hk : k = j
      · subst hk
        simp [perform]
      · simp [perform, hk]
    refine ⟨?_, ?_, ?_, ?_, ?_, ?_, ?_, ?_⟩ <;> intro k <;> rw [hself k] <;> split
    all_goals first
      | rfl
      | exact fun h => h
      | skip
    · simp [Conn.addToBag]
    · rename_i hk
      subst hk
      intro m hm
      simp only [Conn.addToBag, Function.update_self, List.mem_append, List.mem_singleton] at hm
      exact hm.imp_right fun hm => ⟨payload, by simp, hm⟩
    · exact fun m hm => .inl hm
    all_goals
      rintro ⟨code', reason', hmem⟩
      cases List.mem_singleton.mp hmem

theorem performed_foldl (e : Bool) (calls : List NativeCall) (conns : ℕ → Conn) :
    Performed e calls conns (calls.foldl (perform e) conns) := by
  induction calls generalizing conns with
  | nil =>
    exact ⟨fun _ => rfl, fun _ => rfl, fun _ => rfl, fun _ => rfl, fun _ => rfl,
      fun _ m hm => .inl hm, fun _ h => h, fun _ ⟨_, _, h⟩ => absurd h List.not_mem_nil⟩
  | cons call calls ih =>
    have h1 := perform_cases e call conns
    have h2 := ih (perform e conns call)
    refine ⟨fun k => (h2.lanes k).trans (h1.lanes k), fun k => (h2.opened k).trans (h1.opened k),
      fun k => (h2.pathId k).trans (h1.pathId k),
      fun k => (h2.established k).trans (h1.established k),
      fun k => (h2.others k).trans (h1.others k), fun k m hm => ?_,
      fun k hk => h2.closed k (h1.closed k hk), fun k hk => ?_⟩
    · rcases h2.bag k m hm with hm | ⟨payload, hp, rfl⟩
      · rcases h1.bag k m hm with hm | ⟨payload, hp, rfl⟩
        · exact .inl hm
        · exact .inr ⟨payload, List.mem_cons.mpr (.inl (List.mem_singleton.mp hp)), rfl⟩
      · exact .inr ⟨payload, List.mem_cons_of_mem _ hp, rfl⟩
    · obtain ⟨code, reason, hmem⟩ := hk
      rcases List.mem_cons.mp hmem with rfl | hmem
      · exact h2.closed k (h1.closes k ⟨code, reason, by simp⟩)
      · exact h2.closes k ⟨code, reason, hmem⟩

namespace System

theorem commit_conns (e : Bool) (t : End) (sys : System) :
    Performed e t.shared.calls sys.conns (sys.commit e t).conns :=
  performed_foldl e _ _

@[simp] theorem commit_self (e : Bool) (t : End) (sys : System) :
    (sys.commit e t).ends e = t.onShared fun s => { s with calls := [] } := by
  simp [commit]

@[simp] theorem commit_other (e : Bool) (t : End) (sys : System) :
    (sys.commit e t).ends (!e) = sys.ends (!e) := by
  simp [commit]

@[simp] theorem setConn_self (k : ℕ) (conn : Conn) (sys : System) :
    (sys.setConn k conn).conns k = conn := by
  simp [System.setConn]

theorem setConn_of_ne {k j : ℕ} (h : j ≠ k) (conn : Conn) (sys : System) :
    (sys.setConn k conn).conns j = sys.conns j := by
  simp [System.setConn, h]

/-! ### The invariant -/

structure Sound (sys : System) : Prop where
  calm : ∀ e, (sys.ends e).shared.calls = []
  steady : ∀ e, (sys.ends e).shared.Steady
  allocated : ∀ e, ∀ c ∈ reliable, (sys.ends e).shared.allocated c = ((sys.ends e).records c).length
  homed : ∀ e kind p, (sys.ends e).shared.routes.paths kind = some p →
    (sys.conns p.native.conn).pathId e = some p.id
  attached : ∀ e k i, (sys.conns k).pathId e = some i → (sys.conns k).closed.isSome ∨
    ∃ kind p, (sys.ends e).shared.routes.paths kind = some p ∧ p.native.conn = k
  bag : ∀ e k, ∀ m ∈ (sys.conns k).bag e, m.channel ∉ reliable

theorem sound_start (native : Bool → Native) (now : ℕ) : (start native now).Sound where
  calm _ := rfl
  steady _ := by
    refine ⟨fun kind p hp => ?_, fun _ => rfl, fun h => by cases h⟩
    cases kind with
    | relay =>
      cases hp
      rfl
    | direct => cases hp
  allocated _ _ _ := rfl
  homed e kind p hp := by
    cases kind with
    | relay =>
      cases hp
      rfl
    | direct => cases hp
  attached e k i hi := by
    by_cases hk : k = 0
    · subst hk
      exact .inr ⟨.relay, _, rfl, rfl⟩
    · simp [start, hk, Conn.new] at hi
  bag e k m hm := by
    by_cases hk : k = 0 <;> simp [start, hk, Conn.new] at hm

/-- Connections whose lanes and queues change, and that may close, keep a sound
system sound. -/
theorem Sound.conns (h : sys.Sound) {conns : ℕ → Conn}
    (hpath : ∀ k, (conns k).pathId = (sys.conns k).pathId)
    (hclosed : ∀ k, (sys.conns k).closed.isSome → (conns k).closed.isSome)
    (hbag : ∀ e k, ∀ m ∈ (conns k).bag e, m.channel ∉ reliable) :
    Sound { sys with conns := conns } where
  __ := h
  homed := fun e kind p hp => by
    show (conns p.native.conn).pathId e = _
    rw [hpath]
    exact h.homed e kind p hp
  attached := fun e k i hi => by
    have hi : (conns k).pathId e = some i := hi
    rw [hpath] at hi
    exact (h.attached e k i hi).imp_left (hclosed k)
  bag := hbag

theorem Sound.setConn (h : sys.Sound) {k : ℕ} {conn : Conn}
    (hpath : conn.pathId = (sys.conns k).pathId)
    (hclosed : (sys.conns k).closed.isSome → conn.closed.isSome)
    (hbag : ∀ e, ∀ m ∈ conn.bag e, m.channel ∉ reliable) : (sys.setConn k conn).Sound := by
  have hpaths := (Function.forall_update_iff sys.conns fun j (conn : Conn) =>
    conn.pathId = (sys.conns j).pathId).mpr ⟨hpath, fun _ _ => rfl⟩
  have hclosures := (Function.forall_update_iff sys.conns fun j (conn : Conn) =>
    (sys.conns j).closed.isSome → conn.closed.isSome).mpr ⟨hclosed, fun _ _ h => h⟩
  refine h.conns hpaths hclosures fun e => ?_
  exact (Function.forall_update_iff sys.conns fun _ (conn : Conn) =>
    ∀ m ∈ conn.bag e, m.channel ∉ reliable).mpr ⟨hbag e, fun k _ => h.bag e k⟩

theorem Sound.commit (h : sys.Sound) (hm : Moves P (sys.ends e).shared t.shared)
    (halloc : ∀ c ∈ reliable, t.shared.allocated c = (t.records c).length) :
    (sys.commit e t).Sound := by
  have hconns := commit_conns e t sys
  have hother : ∀ d, d = e ∨ d = !e := by
    intro d
    cases d <;> cases e <;> simp
  refine ⟨fun d => ?_, fun d => ?_, fun d => ?_, fun d => ?_, fun d => ?_, fun d => ?_⟩
  all_goals rcases hother d with rfl | rfl
  · simp [End.onShared]
  · rw [commit_other]
    exact h.calm _
  · rw [commit_self]
    exact ⟨hm.steady.seated, hm.steady.present, hm.steady.gone⟩
  · rw [commit_other]
    exact h.steady _
  · rw [commit_self]
    exact halloc
  · rw [commit_other]
    exact h.allocated _
  · rw [commit_self]
    intro kind q hq
    obtain ⟨p, hp, hid, -, hnative⟩ := hm.known kind q hq
    rw [hconns.pathId, hnative, hid]
    exact h.homed _ kind p hp
  · rw [commit_other]
    intro kind p hp
    rw [hconns.pathId]
    exact h.homed _ kind p hp
  · rw [commit_self]
    intro k i hi
    rw [hconns.pathId] at hi
    rcases h.attached _ k i hi with hc | ⟨kind, p, hp, hk⟩
    · exact .inl (hconns.closed k hc)
    · rcases hm.gone kind p hp with ⟨q, hq, -, -, hnative⟩ | hc
      · exact .inr ⟨kind, q, hq, by rw [hnative, hk]⟩
      · rw [hk] at hc
        exact .inl (hconns.closes k hc)
  · rw [commit_other]
    intro k i hi
    rw [hconns.pathId] at hi
    exact (h.attached _ k i hi).imp_left (hconns.closed k)
  · intro k m hm'
    rcases hconns.bag k m hm' with hm' | ⟨payload, -, rfl⟩
    · exact h.bag _ k m hm'
    · show Channel.audio ∉ reliable
      decide
  · intro k m hm'
    rw [hconns.others] at hm'
    exact h.bag _ k m hm'

end System

end Multipath

end NebulaDesk
