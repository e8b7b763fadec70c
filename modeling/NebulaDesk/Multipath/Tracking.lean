/-
Where the copies of a record are.

A record that was written on the selected route and not received is somewhere on
its way (`InTransit`), unless the connection of that route is closed.  The
argument rests on the order in which a connection carries copies: by epoch, and
within an epoch by sequence (`Tracked.trail`).  A copy of the current epoch has
therefore at most a window of newer ones behind it, and its opener still admits
it when it arrives.
-/
import NebulaDesk.Multipath.Lanes
import NebulaDesk.Multipath.Delivery

namespace NebulaDesk

namespace Multipath

open Relation

/-- The order in which a connection carries copies. -/
def Before (a b : Copy) : Prop :=
  a.epoch < b.epoch ∨ a.epoch = b.epoch ∧ a.sequence < b.sequence

namespace Link

/-- Record `s`, written on the route `y`, is on its way, or the connection of the
route is closed. -/
inductive InTransit (c : Channel) (l : Link) (y : Selected) (s : ℕ) : Prop
  | writing (x : Sending) (hx : x ∈ l.sending) (hunsealed : x.isSealed = false)
      (hconn : x.copy.conn = y.native.conn) (hepoch : x.copy.epoch = y.epoch)
      (hseq : x.copy.sequence = s)
  | flying (n : ℕ) (x : Copy) (hn : n ∈ (l.lanes y.native.conn).flight)
      (hx : (l.lanes y.native.conn).log[n]? = some x) (hepoch : x.epoch = y.epoch)
      (hseq : x.sequence = s)
  | read (k : ℕ) (m : Incoming) (hm : m ∈ l.opened k) (hcarries : Carries c l.records m s)
  | queued (m : Incoming) (hm : m ∈ l.queued) (hcarries : Carries c l.records m s)
  | held (hs : s ∈ l.held.map Prod.fst)
  | cut (hclosed : l.closed y.native.conn)

structure Tracked (streams : ℕ) (c : Channel) (l : Link) : Prop where
  route : l.live → ∀ y, l.route = some y → y.epoch = l.epoch ∧ l.ids y.native.conn = some y.id
  homes : ∀ x ∈ l.sending, l.ids x.copy.conn = some x.copy.path
  single : (l.sending.map (·.copy.conn)).Nodup
  marks : ∀ p ∈ l.pending, ∀ kind id epoch, p.attempts kind = some (id, epoch) → epoch ≤ l.epoch
  sent : ∀ x ∈ l.sending, x.copy.epoch ≤ l.epoch
  logged : ∀ k, ∀ x ∈ (l.lanes k).log, x.epoch ≤ l.epoch
  trail : ∀ k, (l.lanes k).log.Pairwise Before
  next : ∀ x ∈ l.sending, x.isSealed = false → ∀ z ∈ (l.lanes x.copy.conn).log, Before z x.copy
  /-- A record not written on the route follows all that were. -/
  front : l.live → ∀ y, l.route = some y → ∀ p ∈ l.pending, p.attempted y = false →
    (∀ z ∈ (l.lanes y.native.conn).log, z.epoch = y.epoch → z.sequence < p.sequence) ∧
    ∀ x ∈ l.sending, x.copy.conn = y.native.conn → x.copy.epoch = y.epoch →
      x.copy.sequence < p.sequence
  tidy : ∀ k, (l.lanes k).log.length ≤ 2 ^ 64 → ∃ S, (l.lanes k).Tidy c streams S
  transit : l.live → ∀ y, l.route = some y → (l.lanes y.native.conn).log.length ≤ 2 ^ 64 →
    ∀ p ∈ l.pending, p.attempted y = true → l.received ≤ p.sequence → InTransit c l y p.sequence

variable {c : Channel} {streams : ℕ} {l l' : Link}

/-! ### Order -/

theorem sequence_of_trail {log : List Copy} (h : log.Pairwise Before) {epoch : ℕ}
    (hlast : ∀ z ∈ log, z.epoch ≤ epoch) {n : ℕ} {x : Copy} (hx : log[n]? = some x)
    (hepoch : x.epoch = epoch) {d : ℕ} {z : Copy} (hz : log[n + d]? = some z) :
    z.epoch = epoch ∧ x.sequence + d ≤ z.sequence := by
  induction d generalizing z with
  | zero =>
    obtain rfl := Option.some.inj (hx.symm.trans hz)
    exact ⟨hepoch, le_rfl⟩
  | succ d ih =>
    obtain ⟨hlt, hzeq⟩ := List.getElem?_eq_some_iff.mp hz
    have hprev : log[n + d]? = some (log.get ⟨n + d, by omega⟩) := List.getElem?_eq_getElem _
    obtain ⟨hpe, hps⟩ := ih hprev
    have hbefore : Before (log.get ⟨n + d, by omega⟩) (log.get ⟨n + (d + 1), hlt⟩) :=
      List.pairwise_iff_get.mp h _ _ (by
        rw [Fin.mk_lt_mk]
        omega)
    rw [show log.get ⟨n + (d + 1), hlt⟩ = z from hzeq] at hbefore
    have hle := hlast z (List.mem_of_getElem? hz)
    rcases hbefore with hlt' | ⟨heq, hseq⟩
    · omega
    · exact ⟨heq ▸ hpe, by omega⟩

theorem Tracked.recent (h : l.Tracked streams c) (hg : l.Genuine c) (hb : l.Bounded) {k n : ℕ}
    {x : Copy} (hx : (l.lanes k).log[n]? = some x) (hepoch : x.epoch = l.epoch)
    (hnew : l.received ≤ x.sequence) : (l.lanes k).log.length ≤ n + window := by
  by_contra hlong
  obtain ⟨z, hz⟩ : ∃ z, (l.lanes k).log[n + window]? = some z :=
    ⟨_, List.getElem?_eq_getElem (by omega)⟩
  obtain ⟨-, hseq⟩ := sequence_of_trail (h.trail k) (h.logged k) hx hepoch hz
  obtain ⟨hlt, -⟩ := List.getElem?_eq_some_iff.mp (hg.lanes k z (List.mem_of_getElem? hz))
  have := hb.outstanding
  have := hb.acked
  omega

theorem widthOf_eq (hs : c.isStreamPerMessage = true) : ChannelState.widthOf c = 64 := by
  cases c <;> first | rfl | cases hs

/-- **A copy of the current route that is not received is never refused.** -/
theorem Tracked.take_ok (h : l.Tracked streams c) (hg : l.Genuine c) (hb : l.Bounded)
    (hstreams : streams < 2 ^ 31) {k n : ℕ} {x : Copy}
    (hlen : (l.lanes k).log.length ≤ 2 ^ 64) (hx : (l.lanes k).log[n]? = some x)
    (harrives : (l.lanes k).arrives c n = true) (hepoch : x.epoch = l.epoch)
    (hnew : l.received ≤ x.sequence) : ((l.lanes k).take c n x).1 = .ok x := by
  obtain ⟨S, hS⟩ := h.tidy k hlen
  have hnear := h.recent hg hb hx hepoch hnew
  have hwindow : window = 32 := rfl
  exact hS.take_ok hlen hstreams harrives x widthOf_eq (by omega)

/-! ### Steps -/

theorem InTransit.mono {y : Selected} {s : ℕ} (h : InTransit c l y s)
    (hsending : ∀ x ∈ l.sending, x ∈ l'.sending) (hlanes : l'.lanes = l.lanes)
    (hopened : l'.opened = l.opened) (hrx : l'.toRx = l.toRx)
    (hrecords : ∀ m, Carries c l.records m s → Carries c l'.records m s)
    (hclosed : ∀ k, l.closed k → l'.closed k) : InTransit c l' y s := by
  cases h with
  | writing x hx hu hconn he hs => exact .writing x (hsending x hx) hu hconn he hs
  | flying n x hn hx he hs => exact .flying n x (by rwa [hlanes]) (by rwa [hlanes]) he hs
  | read k m hm hcar => exact .read k m (by rwa [hopened]) (hrecords m hcar)
  | queued m hm hcar => exact .queued m (by rwa [hrx]) (hrecords m hcar)
  | held hs => exact .held (by rwa [hrx])
  | cut hcl => exact .cut (hclosed _ hcl)

section Steps

variable (h : l.Tracked streams c)
include h

theorem Tracked.steer {live : Prop} {epoch : ℕ} {route : Option Selected} {closed : ℕ → Prop}
    {ids : ℕ → Option ℕ} {acks : Set ℕ} (hlive : live → l.live) (hepoch : l.epoch ≤ epoch)
    (hkept : live → epoch = l.epoch → route = l.route)
    (hroute : live → ∀ y, route = some y → y.epoch = epoch ∧ ids y.native.conn = some y.id)
    (hclosed : ∀ k, l.closed k → closed k) (hids : ∀ k i, l.ids k = some i → ids k = some i) :
    Tracked streams c { l with live, epoch, route, closed, ids, acks } := by
  refine { h with
    route := hroute
    homes := fun x hx => hids _ _ (h.homes x hx)
    marks := fun p hp kind id ep hep => (h.marks p hp kind id ep hep).trans hepoch
    sent := fun x hx => (h.sent x hx).trans hepoch
    logged := fun k x hx => (h.logged k x hx).trans hepoch
    front := fun hl y hy p hp hnot => ?_
    transit := fun hl y hy hlen p hp hatt hnew => ?_ }
  · rcases Nat.eq_or_lt_of_le hepoch with heq | hlt
    · have hy' : l.route = some y := (hkept hl heq.symm).symm.trans hy
      exact h.front (hlive hl) y hy' p hp hnot
    · have hye := (hroute hl y hy).1
      refine ⟨fun z hz hze => ?_, fun x hx _ hxe => ?_⟩
      · have := h.logged _ z hz
        omega
      · have := h.sent x hx
        omega
  · rcases Nat.eq_or_lt_of_le hepoch with heq | hlt
    · have hy' : l.route = some y := (hkept hl heq.symm).symm.trans hy
      exact (h.transit (hlive hl) y hy' hlen p hp hatt hnew).mono (fun _ hx => hx) rfl rfl rfl
        (fun _ hcar => hcar) hclosed
    · -- No mark is of an epoch that has just begun.
      have hye := (hroute hl y hy).1
      have hatt : p.attempts y.kind = some (y.id, y.epoch) := by simpa [Pending.attempted] using hatt
      have := h.marks p hp y.kind y.id y.epoch hatt
      omega

theorem Tracked.number (hg : l.Genuine c) (r : Request) :
    Tracked streams c
      { l with
        records := l.records ++ [r]
        pending := l.pending ++ [⟨l.records.length, r, fun _ => none⟩] } := by
  have hlt : ∀ {s : ℕ} {r' : Request}, l.records[s]? = some r' → s < l.records.length :=
    fun hs => (List.getElem?_eq_some_iff.mp hs).1
  refine { h with
    marks := fun p hp => ?_
    front := fun hl y hy p hp hnot => ?_
    transit := fun hl y hy hlen p hp hatt hnew => ?_ }
  · rcases List.mem_append.mp hp with hp | hp
    · exact h.marks p hp
    · obtain rfl := List.mem_singleton.mp hp
      intro kind id epoch hmark
      cases hmark
  · rcases List.mem_append.mp hp with hp | hp
    · exact h.front hl y hy p hp hnot
    · obtain rfl := List.mem_singleton.mp hp
      exact ⟨fun z hz _ => hlt (hg.lanes _ z hz), fun x hx _ _ => hlt (hg.sending x hx)⟩
  · rcases List.mem_append.mp hp with hp | hp
    · exact (h.transit hl y hy hlen p hp hatt hnew).mono (fun _ hx => hx) rfl rfl rfl
        (fun _ hcar => hcar.concat r) fun _ hcl => hcl
    · obtain rfl := List.mem_singleton.mp hp
      simp [Pending.attempted] at hatt

theorem Tracked.retire (acknowledged : ℕ) {pending : List Pending}
    (hsub : ∀ p ∈ pending, p ∈ l.pending) : Tracked streams c { l with acknowledged, pending } := by
  refine { h with
    marks := fun p hp => h.marks p (hsub p hp)
    front := fun hl y hy p hp => h.front hl y hy p (hsub p hp)
    transit := fun hl y hy hlen p hp hatt hnew => ?_ }
  exact (h.transit hl y hy hlen p (hsub p hp) hatt hnew).mono (fun _ hx => hx) rfl rfl rfl
    (fun _ hcar => hcar) fun _ hcl => hcl

theorem Tracked.attempt (hb : l.Bounded) {y : Selected} {p : Pending} {ps : List Pending}
    (hlive : l.live) (hy : l.route = some y) (hbusy : ∀ x ∈ l.sending, x.copy.path ≠ y.id)
    (hmark : markFirst y l.pending = some (p, ps)) :
    Tracked streams c
      { l with
        pending := ps
        sending := l.sending ++
          [⟨⟨y.id, y.native.conn, y.epoch, p.sequence, p.request⟩, false⟩] } := by
  obtain ⟨front, back, hpending, rfl, hfront, hp⟩ := markFirst_eq_some hmark
  obtain ⟨hye, hyid⟩ := h.route hlive y hy
  have hpin : p ∈ l.pending := by
    rw [hpending]
    simp
  -- No write occupies the connection of the route.
  have hfree : ∀ x ∈ l.sending, x.copy.conn ≠ y.native.conn := by
    intro x hx hconn
    have hid := h.homes x hx
    rw [hconn, hyid] at hid
    exact hbusy x hx (Option.some.inj hid).symm
  have hfollow := h.front hlive y hy p hpin hp
  have hafter : ∀ q ∈ back, p.sequence < q.sequence := by
    have hsorted : (l.pending.map (·.sequence)).Pairwise (· < ·) := by
      rw [hb.run]
      exact List.pairwise_lt_range' ..
    rw [hpending, List.map_append, List.map_cons, List.pairwise_append] at hsorted
    intro q hq
    exact (List.pairwise_cons.mp hsorted.2.1).1 _ (List.mem_map.mpr ⟨q, hq, rfl⟩)
  have hold : ∀ {q : Pending}, q ∈ front ++ p.mark y :: back →
      q = p.mark y ∨ q ∈ front ∨ q ∈ back := by
    intro q hq
    rcases List.mem_append.mp hq with hq | hq
    · exact .inr (.inl hq)
    · exact (List.mem_cons.mp hq).imp_right .inr
  have hmem : ∀ {q : Pending}, q ∈ front ∨ q ∈ back → q ∈ l.pending := by
    intro q hq
    rw [hpending]
    rcases hq with hq | hq
    · exact List.mem_append_left _ hq
    · exact List.mem_append_right _ (List.mem_cons_of_mem _ hq)
  refine { h with
    homes := fun x hx => ?_
    single := ?_
    marks := fun q hq kind id epoch hm => ?_
    sent := fun x hx => ?_
    next := fun x hx hu z hz => ?_
    front := fun hl y' hy' q hq hnot => ?_
    transit := fun hl y' hy' hlen q hq hatt hnew => ?_ }
  · rcases List.mem_append.mp hx with hx | hx
    · exact h.homes x hx
    · obtain rfl := List.mem_singleton.mp hx
      exact hyid
  · rw [List.map_append, List.nodup_append]
    refine ⟨h.single, List.nodup_singleton _, fun a ha b hb => ?_⟩
    obtain ⟨x, hx, rfl⟩ := List.mem_map.mp ha
    obtain rfl := List.mem_singleton.mp hb
    exact hfree x hx
  · rcases hold hq with rfl | hq
    · by_cases hk : kind = y.kind
      · subst hk
        simp only [Pending.mark, Function.update_self, Option.some.injEq, Prod.mk.injEq] at hm
        rw [← hm.2]
        exact hye.le
      · simp only [Pending.mark, Function.update_of_ne hk] at hm
        exact h.marks p hpin kind id epoch hm
    · exact h.marks q (hmem hq) kind id epoch hm
  · rcases List.mem_append.mp hx with hx | hx
    · exact h.sent x hx
    · obtain rfl := List.mem_singleton.mp hx
      exact hye.le
  · rcases List.mem_append.mp hx with hx | hx
    · exact h.next x hx hu z hz
    · obtain rfl := List.mem_singleton.mp hx
      have hle := h.logged _ z hz
      rcases Nat.eq_or_lt_of_le hle with heq | hlt
      · exact .inr ⟨heq.trans hye.symm, hfollow.1 z hz (heq.trans hye.symm)⟩
      · exact .inl (by
          show z.epoch < y.epoch
          omega)
  · obtain rfl : y = y' := Option.some.inj (hy.symm.trans hy')
    have hq' : q ∈ back := by
      rcases hold hq with rfl | hq | hq
      · rw [Pending.attempted_mark] at hnot
        cases hnot
      · rw [hfront q hq] at hnot
        cases hnot
      · exact hq
    obtain ⟨hlog, hsend⟩ := h.front hl y hy q (hmem (.inr hq')) hnot
    refine ⟨hlog, fun x hx hconn he => ?_⟩
    rcases List.mem_append.mp hx with hx | hx
    · exact hsend x hx hconn he
    · obtain rfl := List.mem_singleton.mp hx
      exact hafter q hq'
  · obtain rfl : y = y' := Option.some.inj (hy.symm.trans hy')
    rcases hold hq with rfl | hq
    · exact .writing _ (List.mem_append_right _ (List.mem_singleton.mpr rfl)) rfl rfl rfl rfl
    · exact (h.transit hl y hy hlen q (hmem hq) hatt hnew).mono
        (fun _ hx => List.mem_append_left _ hx) rfl rfl rfl (fun _ hcar => hcar) fun _ hcl => hcl

theorem Tracked.sealCopy {i : ℕ} {x : Copy} (hx : l.sending[i]? = some ⟨x, false⟩)
    (hroom : c.isStreamPerMessage → (l.lanes x.conn).flight.length < streams) :
    Tracked streams c
      { l with
        sending := l.sending.set i ⟨x, true⟩
        lanes := Function.update l.lanes x.conn ((l.lanes x.conn).push x) } := by
  have hxin : (⟨x, false⟩ : Sending) ∈ l.sending := List.mem_of_getElem? hx
  have hset : ∀ {z : Sending}, z ∈ l.sending.set i ⟨x, true⟩ → z ∈ l.sending ∨ z = ⟨x, true⟩ :=
    fun hz => List.mem_or_eq_of_mem_set hz
  have hcopies : (l.sending.set i ⟨x, true⟩).map (·.copy) = l.sending.map (·.copy) := by
    rw [List.map_set]
    refine List.ext_getElem? fun j => ?_
    rw [List.getElem?_set]
    split
    · rename_i hij
      subst hij
      rw [List.length_map, if_pos (List.getElem?_eq_some_iff.mp hx).1, List.getElem?_map, hx]
      rfl
    · rfl
  -- What is not sealed rides another connection.
  have hother : ∀ z ∈ l.sending.set i ⟨x, true⟩, z.isSealed = false →
      z ∈ l.sending ∧ z.copy.conn ≠ x.conn := by
    intro z hz hu
    obtain ⟨j, hj⟩ := List.getElem?_of_mem hz
    rw [List.getElem?_set] at hj
    split at hj
    · obtain ⟨-, rfl⟩ := Runs.some_of_guard hj
      cases hu
    · rename_i hij
      refine ⟨List.mem_of_getElem? hj, fun hconn => hij ?_⟩
      have hi' : (l.sending.map (·.copy.conn))[i]? = some x.conn := by simp [hx]
      have hj' : (l.sending.map (·.copy.conn))[j]? = some x.conn := by simp [hj, hconn]
      obtain ⟨hilt, -⟩ := List.getElem?_eq_some_iff.mp hi'
      exact (List.getElem?_inj hilt h.single).mp (hi'.trans hj'.symm)
  have hlog : ∀ k, ∀ z ∈ (Function.update l.lanes x.conn ((l.lanes x.conn).push x) k).log,
      z ∈ (l.lanes k).log ∨ k = x.conn ∧ z = x := by
    intro k z hz
    by_cases hk : k = x.conn
    · subst hk
      rw [Function.update_self] at hz
      exact (List.mem_append.mp hz).imp_right fun hz => ⟨rfl, List.mem_singleton.mp hz⟩
    · rw [Function.update_of_ne hk] at hz
      exact .inl hz
  refine { h with
    homes := fun z hz => ?_
    single := ?_
    sent := fun z hz => ?_
    logged := fun k z hz => ?_
    trail := ?_
    next := fun z hz hu w hw => ?_
    front := fun hl y hy p hp hnot => ?_
    tidy := ?_
    transit := fun hl y hy hlen p hp hatt hnew => ?_ }
  · rcases hset hz with hz | rfl
    · exact h.homes z hz
    · exact h.homes ⟨x, false⟩ hxin
  · have := h.single
    rw [show l.sending.map (·.copy.conn) = (l.sending.map (·.copy)).map (·.conn) by simp] at this
    rw [show (l.sending.set i ⟨x, true⟩).map (·.copy.conn) =
      ((l.sending.set i ⟨x, true⟩).map (·.copy)).map (·.conn) by rw [List.map_map]; rfl, hcopies]
    exact this
  · rcases hset hz with hz | rfl
    · exact h.sent z hz
    · exact h.sent ⟨x, false⟩ hxin
  · rcases hlog k z hz with hz | ⟨-, rfl⟩
    · exact h.logged k z hz
    · exact h.sent _ hxin
  · refine (Function.forall_update_iff l.lanes fun _ (lane : Lane Copy) =>
      lane.log.Pairwise Before).mpr ⟨?_, fun k _ => h.trail k⟩
    show ((l.lanes x.conn).log ++ [x]).Pairwise Before
    rw [List.pairwise_append]
    refine ⟨h.trail _, List.pairwise_singleton _ _, fun a ha b hb => ?_⟩
    obtain rfl := List.mem_singleton.mp hb
    exact h.next _ hxin rfl a ha
  · obtain ⟨hzin, hne⟩ := hother z hz hu
    have hw : w ∈ (Function.update l.lanes x.conn ((l.lanes x.conn).push x) z.copy.conn).log := hw
    rw [Function.update_of_ne hne] at hw
    exact h.next z hzin hu w hw
  · obtain ⟨hlog', hsend⟩ := h.front hl y hy p hp hnot
    refine ⟨fun z hz hze => ?_, fun z hz hconn he => ?_⟩
    · rcases hlog _ z hz with hz | ⟨hk, rfl⟩
      · exact hlog' z hz hze
      · exact hsend _ hxin hk.symm hze
    · rcases hset hz with hz | rfl
      · exact hsend z hz hconn he
      · exact hsend ⟨x, false⟩ hxin hconn he
  · refine (Function.forall_update_iff l.lanes fun _ (lane : Lane Copy) =>
      lane.log.length ≤ 2 ^ 64 → ∃ S, lane.Tidy c streams S).mpr ⟨fun hlen => ?_, fun k _ => h.tidy k⟩
    have hlen : ((l.lanes x.conn).log ++ [x]).length ≤ 2 ^ 64 := hlen
    rw [List.length_append] at hlen
    obtain ⟨S, hS⟩ := h.tidy x.conn (by omega)
    exact ⟨S, hS.push x hroom⟩
  · have hlen' : (l.lanes y.native.conn).log.length ≤ 2 ^ 64 := by
      have hlen : (Function.update l.lanes x.conn ((l.lanes x.conn).push x)
        y.native.conn).log.length ≤ 2 ^ 64 := hlen
      by_cases hk : y.native.conn = x.conn
      · rw [hk] at hlen ⊢
        rw [Function.update_self] at hlen
        have hlen : ((l.lanes x.conn).log ++ [x]).length ≤ 2 ^ 64 := hlen
        rw [List.length_append] at hlen
        omega
      · rwa [Function.update_of_ne hk] at hlen
    cases h.transit hl y hy hlen' p hp hatt hnew with
    | writing z hz hu hconn he hs =>
      obtain ⟨j, hj⟩ := List.getElem?_of_mem hz
      by_cases hij : i = j
      · subst hij
        obtain rfl := Option.some.inj (hx.symm.trans hj)
        have hconn : x.conn = y.native.conn := hconn
        refine .flying (l.lanes x.conn).log.length x ?_ ?_ he hs
        · show _ ∈ (Function.update l.lanes x.conn _ y.native.conn).flight
          rw [← hconn, Function.update_self]
          exact List.mem_append_right _ (List.mem_singleton.mpr rfl)
        · show (Function.update l.lanes x.conn _ y.native.conn).log[_]? = _
          rw [← hconn, Function.update_self]
          simp [Lane.push]
      · refine .writing z (List.mem_of_getElem? (i := j) ?_) hu hconn he hs
        rw [List.getElem?_set_ne hij]
        exact hj
    | flying n z hn hz he hs =>
      refine .flying n z ?_ ?_ he hs
      · show _ ∈ (Function.update l.lanes x.conn _ y.native.conn).flight
        by_cases hk : y.native.conn = x.conn
        · rw [hk] at hn ⊢
          rw [Function.update_self]
          exact List.mem_append_left _ hn
        · rwa [Function.update_of_ne hk]
      · show (Function.update l.lanes x.conn _ y.native.conn).log[_]? = _
        by_cases hk : y.native.conn = x.conn
        · rw [hk] at hz ⊢
          rw [Function.update_self]
          obtain ⟨hlt, -⟩ := List.getElem?_eq_some_iff.mp hz
          show ((l.lanes x.conn).log ++ [x])[n]? = some z
          rw [List.getElem?_append_left hlt, hz]
        · rwa [Function.update_of_ne hk]
    | read k m hm hcar => exact .read k m hm hcar
    | queued m hm hcar => exact .queued m hm hcar
    | held hs => exact .held hs
    | cut hcl => exact .cut hcl

theorem Tracked.complete {i : ℕ}
    (hdone : ∀ x, l.sending[i]? = some x → x.isSealed = true ∨ l.closed x.copy.conn) :
    Tracked streams c { l with sending := l.sending.eraseIdx i } := by
  have hsub : ∀ x ∈ l.sending.eraseIdx i, x ∈ l.sending := fun x => List.mem_of_mem_eraseIdx
  refine { h with
    homes := fun x hx => h.homes x (hsub x hx)
    single := h.single.sublist ((List.eraseIdx_sublist _ _).map _)
    sent := fun x hx => h.sent x (hsub x hx)
    next := fun x hx => h.next x (hsub x hx)
    front := fun hl y hy p hp hnot => ?_
    transit := fun hl y hy hlen p hp hatt hnew => ?_ }
  · obtain ⟨hlog, hsend⟩ := h.front hl y hy p hp hnot
    exact ⟨hlog, fun x hx => hsend x (hsub x hx)⟩
  · cases h.transit hl y hy hlen p hp hatt hnew with
    | writing x hx hu hconn he hs =>
      obtain ⟨j, hj⟩ := List.getElem?_of_mem hx
      by_cases hij : j = i
      · subst hij
        rcases hdone x hj with hsealed | hcl
        · rw [hu] at hsealed
          cases hsealed
        · exact .cut (hconn ▸ hcl)
      · exact .writing x (List.mem_eraseIdx_iff_getElem?.mpr ⟨j, hij, hj⟩) hu hconn he hs
    | flying n x hn hx he hs => exact .flying n x hn hx he hs
    | read k m hm hcar => exact .read k m hm hcar
    | queued m hm hcar => exact .queued m hm hcar
    | held hs => exact .held hs
    | cut hcl => exact .cut hcl

theorem Tracked.arrive (hg : l.Genuine c) (hb : l.Bounded) (hstreams : streams < 2 ^ 31) {k n : ℕ}
    {x : Copy} (hx : (l.lanes k).log[n]? = some x) (harrives : (l.lanes k).arrives c n = true) :
    Tracked streams c
      { l with
        lanes := Function.update l.lanes k ((l.lanes k).take c n x).2
        opened := Function.update l.opened k
          (arrived c n (l.opened k) ((l.lanes k).take c n x).1) } := by
  have hlogs : ∀ j, (Function.update l.lanes k ((l.lanes k).take c n x).2 j).log =
      (l.lanes j).log := by
    intro j
    by_cases hj : j = k
    · subst hj
      rw [Function.update_self]
      rfl
    · rw [Function.update_of_ne hj]
  have hopened : ∀ j, ∀ m ∈ l.opened j, m ∈ Function.update l.opened k
      (arrived c n (l.opened k) ((l.lanes k).take c n x).1) j := by
    intro j m hm
    by_cases hj : j = k
    · subst hj
      rw [Function.update_self]
      cases ((l.lanes j).take c n x).1 with
      | ok z => exact Set.mem_insert_of_mem _ hm
      | error error => exact hm
    · rwa [Function.update_of_ne hj]
  refine { h with
    logged := fun j z hz => ?_
    trail := fun j => ?_
    next := fun z hz hu w hw => ?_
    front := fun hl y hy p hp hnot => ?_
    tidy := ?_
    transit := fun hl y hy hlen p hp hatt hnew => ?_ }
  · have hz : z ∈ (Function.update l.lanes k _ j).log := hz
    rw [hlogs] at hz
    exact h.logged j z hz
  · show (Function.update l.lanes k _ j).log.Pairwise Before
    rw [hlogs]
    exact h.trail j
  · have hw : w ∈ (Function.update l.lanes k _ z.copy.conn).log := hw
    rw [hlogs] at hw
    exact h.next z hz hu w hw
  · obtain ⟨hlog, hsend⟩ := h.front hl y hy p hp hnot
    refine ⟨fun z hz => ?_, hsend⟩
    have hz : z ∈ (Function.update l.lanes k _ y.native.conn).log := hz
    rw [hlogs] at hz
    exact hlog z hz
  · refine (Function.forall_update_iff l.lanes fun _ (lane : Lane Copy) =>
      lane.log.length ≤ 2 ^ 64 → ∃ S, lane.Tidy c streams S).mpr ⟨fun hlen => ?_, fun j _ => h.tidy j⟩
    obtain ⟨S, hS⟩ := h.tidy k hlen
    exact hS.take hlen hstreams harrives x widthOf_eq
  · have hlen' : (l.lanes y.native.conn).log.length ≤ 2 ^ 64 := by
      rw [← hlogs]
      exact hlen
    cases h.transit hl y hy hlen' p hp hatt hnew with
    | writing z hz hu hconn he hs => exact .writing z hz hu hconn he hs
    | flying j z hj hz he hs =>
      by_cases hcase : y.native.conn = k ∧ j = n
      · -- This is the copy that arrives.
        obtain ⟨hk, rfl⟩ := hcase
        subst hk
        obtain rfl := Option.some.inj (hx.symm.trans hz)
        have hepoch : x.epoch = l.epoch := he.trans (h.route hl y hy).1
        have hok := h.take_ok hg hb hstreams hlen' hx harrives hepoch (hs ▸ hnew)
        refine .read y.native.conn (x.message c j) ?_
          (hs ▸ carries_message (hg.lanes _ x (List.mem_of_getElem? hx)) j)
        show _ ∈ Function.update l.opened y.native.conn _ y.native.conn
        rw [Function.update_self, hok]
        exact Set.mem_insert _ _
      · refine .flying j z ?_ ?_ he hs
        · show _ ∈ (Function.update l.lanes k _ y.native.conn).flight
          by_cases hk : y.native.conn = k
          · subst hk
            rw [Function.update_self]
            have hne : j ≠ n := fun hjn => hcase ⟨rfl, hjn⟩
            exact (List.mem_erase_of_ne hne).mpr hj
          · rwa [Function.update_of_ne hk]
        · show (Function.update l.lanes k _ y.native.conn).log[j]? = _
          rwa [hlogs]
    | read j m hm hcar => exact .read j m (hopened j m hm) hcar
    | queued m hm hcar => exact .queued m hm hcar
    | held hs => exact .held hs
    | cut hcl => exact .cut hcl

theorem Tracked.forward {k : ℕ} {m : Incoming} {rest : Set Incoming}
    (hm : TakenOut m (l.opened k) rest) :
    Tracked streams c
      { l with
        opened := Function.update l.opened k rest
        queued := insert m l.queued } := by
  refine { h with transit := fun hl y hy hlen p hp hatt hnew => ?_ }
  cases h.transit hl y hy hlen p hp hatt hnew with
  | writing z hz hu hconn he hs => exact .writing z hz hu hconn he hs
  | flying n x hn hx he hs => exact .flying n x hn hx he hs
  | read j m' hm' hcar =>
    by_cases hj : j = k
    · subst hj
      by_cases hmm : m' = m
      · subst hmm
        exact .queued m' (Set.mem_insert _ _) hcar
      · refine .read j m' ?_ hcar
        show m' ∈ Function.update l.opened j rest j
        rw [Function.update_self]
        exact hm.others m' hm' hmm
    · refine .read j m' ?_ hcar
      show m' ∈ Function.update l.opened k rest j
      rwa [Function.update_of_ne hj]
  | queued m' hm' hcar => exact .queued m' (Set.mem_insert_of_mem _ hm') hcar
  | held hs => exact .held hs
  | cut hcl => exact .cut hcl

theorem Tracked.absorb (hg : l.Genuine c) {m : Incoming} {rest : Set Incoming}
    (hm : TakenOut m l.queued rest) {sequence epoch : ℕ} {payload : List UInt8}
    (hparse : parse m = .ok (.data sequence epoch payload)) {held : List (ℕ × Incoming)}
    (hheld : (held = l.held ∧
        (sequence < l.received ∨ sequence ∈ l.held.map Prod.fst ∨ False)) ∨
      (l.received ≤ sequence ∧ sequence ∉ l.held.map Prod.fst ∧
        held = (sequence, ⟨c, { m.header with seq := UInt32.ofNat sequence }, payload⟩) ::
          l.held)) :
    Tracked streams c { l with queued := rest, held := held } := by
  have hmore : ∀ s ∈ l.held.map Prod.fst, s ∈ held.map Prod.fst := by
    intro s hs
    rcases hheld with ⟨rfl, -⟩ | ⟨-, -, rfl⟩
    · exact hs
    · exact List.mem_cons_of_mem _ hs
  refine { h with transit := fun hl y hy hlen p hp hatt hnew => ?_ }
  cases h.transit hl y hy hlen p hp hatt hnew with
  | writing z hz hu hconn he hs => exact .writing z hz hu hconn he hs
  | flying n x hn hx he hs => exact .flying n x hn hx he hs
  | read j m' hm' hcar => exact .read j m' hm' hcar
  | queued m' hm' hcar =>
    by_cases hmm : m' = m
    · subst hmm
      obtain ⟨epoch', r, -, -, hparse', -⟩ := hcar.parse hg.bound
      rw [hparse] at hparse'
      obtain ⟨hseq, -, -⟩ := Frame.data.inj (Except.ok.inj hparse')
      refine .held ?_
      rcases hheld with ⟨rfl, hlt | hin | hfalse⟩ | ⟨-, -, rfl⟩
      · have hnew : l.received ≤ p.sequence := hnew
        omega
      · rwa [← hseq]
      · exact hfalse.elim
      · rw [← hseq]
        exact List.mem_cons_self
    · exact .queued m' (hm.others m' hm' hmm) hcar
  | held hs => exact .held (hmore _ hs)
  | cut hcl => exact .cut hcl

theorem Tracked.deliver {m : Incoming} :
    Tracked streams c
      { l with
        held := l.held.filter (·.1 ≠ l.received)
        received := l.received + 1
        delivered := l.delivered ++ [m] } := by
  refine { h with transit := fun hl y hy hlen p hp hatt hnew => ?_ }
  have hnew : l.received + 1 ≤ p.sequence := hnew
  cases h.transit hl y hy hlen p hp hatt (by omega) with
  | writing z hz hu hconn he hs => exact .writing z hz hu hconn he hs
  | flying n x hn hx he hs => exact .flying n x hn hx he hs
  | read j m' hm' hcar => exact .read j m' hm' hcar
  | queued m' hm' hcar => exact .queued m' hm' hcar
  | held hs =>
    refine .held ?_
    obtain ⟨x, hx, hxs⟩ := List.mem_map.mp hs
    refine List.mem_map.mpr ⟨x, List.mem_filter.mpr ⟨hx, ?_⟩, hxs⟩
    have : x.1 ≠ l.received := by omega
    simpa using this
  | cut hcl => exact .cut hcl

end Steps

theorem Tracked.step (h : l.Tracked streams c) (hg : l.Genuine c) (hb : l.Bounded)
    (hstreams : streams < 2 ^ 31) (hs : Step streams c False l l') : l'.Tracked streams c := by
  cases hs with
  | steer live epoch route closed ids acks hlive hepoch hkept hroute hclosed hids hacks =>
    exact h.steer hlive hepoch hkept hroute hclosed hids
  | acknowledge v hv => exact h.retire _ fun _ hp => hp
  | number r hroom hmax => exact h.number hg r
  | retire => exact h.retire _ fun p hp => (List.dropWhile_sublist _).subset hp
  | attempt y p ps hlive hy hbusy hmark => exact h.attempt hb hlive hy hbusy hmark
  | sealCopy i x hx hroom => exact h.sealCopy hx hroom
  | complete i hdone => exact h.complete hdone
  | arrive k n x hx hopen harrives => exact h.arrive hg hb hstreams hx harrives
  | forward k m rest hm => exact h.forward hm
  | absorb m rest hm sequence epoch payload hparse held hheld => exact h.absorb hg hm hparse hheld
  | deliver m hm => exact h.deliver

theorem Tracked.steps (h : l.Tracked streams c) (hg : l.Genuine c) (hb : l.Bounded)
    (hstreams : streams < 2 ^ 31) (hs : ReflTransGen (Step streams c False) l l') :
    l'.Tracked streams c := by
  induction hs with
  | refl => exact h
  | tail hrun hstep ih => exact ih.step (hg.steps hrun) (hb.steps hrun) hstreams hstep

end Link

end Multipath

end NebulaDesk
