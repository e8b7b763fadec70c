/-
Every transfer of two linked engines.

`Linked` is what every reachable pair of engines keeps: transfers are numbered
apart, an offer in flight is one that was made, and of a transfer not offered
there is nothing.  One call moves each transfer by a step of its own or not at
all (`Linked.evolves`), so what the steps of a transfer keep holds in every
reachable state (`transfers_of_reach`).
-/
import NebulaDesk.Agent.Duplex

namespace NebulaDesk

open FileTransfers Flight Runs

def Transfer.blank : Transfer := ⟨none, none, false, [], [], [], [], []⟩

/-- What every reachable pair of engines keeps. -/
structure Linked (blake3 : List UInt8 → Text) (env : Bool → Env) (folder : Bool → PathBuf)
    (l : Duplex) : Prop where
  sheltered : ∀ e, Sheltered (env e) (l.peer e).1 (l.peer e).2
  downloads : ∀ e, (l.peer e).1.downloads = folder e
  hashed : ∀ e o b, (o, b) ∈ l.hashed e → o.transferId < (l.peer e).1.nextId ∧
    o.size ≤ maxFile ∧ o.blake3 = blake3 b
  unique : ∀ e o b o' b', (o, b) ∈ l.hashed e → (o', b') ∈ l.hashed e →
    o.transferId = o'.transferId → o = o' ∧ b = b'
  offers : ∀ e id, (l.flight e).filterMap (FileAction.offerOf id) = [] ∨
    ∃ o b, (o, b) ∈ l.hashed e ∧ o.transferId = id ∧
      (l.flight e).filterMap (FileAction.offerOf id) = [o]
  blank : ∀ e id, (∀ o b, (o, b) ∈ l.hashed e → o.transferId ≠ id) → l.view e id = .blank
  published : ∀ e id path c, (id, path, c) ∈ l.published e →
    (path, c) ∈ publications (l.peer e).2.effects

theorem Transfer.Step.of_blank {blake3 : List UInt8 → Text} {o : FileOffer} {copies : Bool}
    {t : Transfer} (h : Transfer.Step blake3 o copies .blank t) : t = .blank := by
  generalize hb : Transfer.blank = b at h
  cases h with
  | drop => exact hb ▸ rfl
  | pump hs | pumpEmpty hs =>
    rw [← hb] at hs
    cases hs
  | accept ho | decline ho =>
    rw [← hb] at ho
    cases ho
  | stray hm | progress hm | finish hm | refuse hm | ack hm =>
    rw [← hb] at hm
    cases hm
  | expire hr =>
    rw [← hb] at hr
    cases hr

/-! ### One call -/

namespace Linked

variable {blake3 : List UInt8 → Text} {env : Bool → Env} {folder : Bool → PathBuf} {l : Duplex}
  {p : Bool → Platform} {copies : Bool} {c : Call}

/-- The transfer of `o`, or nothing at all. -/
def Known (l : Duplex) (d : Bool) (o : FileOffer) : Prop :=
  (∃ b, (o, b) ∈ l.hashed d) ∨ l.view d o.transferId = .blank

theorem answers (h : Linked blake3 env folder l) (hleaves : ∀ e, (env e).LeavesFiles (folder e))
    {e : Bool} {op : FileOp} {copy : Bool}
    (hop : (∃ now o, op = .offer now o) ∨ ∃ now header data, op = .chunk now header data) :
    Answers (l.peer e).1 (l.out p ⟨e, op, copy⟩) (l.left p ⟨e, op, copy⟩) := by
  rcases hop with ⟨now, o, rfl⟩ | ⟨now, header, data, rfl⟩
  · exact (onOffer_cases (p e) (l.peer e).1 now o (l.peer e).2).1.answers
  · obtain ⟨added, hcase, -⟩ := onChunk_cases (p e) now header data (h.sheltered e)
      ((h.downloads e).symm ▸ hleaves e)
    exact hcase.answers

variable {o : FileOffer} {d : Bool}

theorem sender_moves (h : Linked blake3 env folder l)
    (hleaves : ∀ e, (env e).LeavesFiles (folder e)) (hen : l.enabled copies c = true)
    (ho : Known l c.side o) :
    Transfer.Moves blake3 o copies (l.view c.side o.transferId)
        ((l.act p c).view c.side o.transferId) ∨
      ∃ o' bytes s, o'.transferId = o.transferId ∧ Duplex.Offered p l c o' bytes s := by
  obtain ⟨e, op, copy⟩ := c
  cases op with
  | send now source =>
    rcases Duplex.send_cases source with ⟨-, hsame⟩ | ⟨o', bytes, s, hoff, hsame⟩
    · exact Or.inl (Or.inl (hsame _))
    · by_cases hid : o'.transferId = o.transferId
      · exact Or.inr ⟨o', bytes, s, hid, hoff⟩
      · exact Or.inl (Or.inl (hsame _ hid))
  | pump now pick reads => exact Or.inl (Duplex.pump_moves pick reads o)
  | ack now a =>
    refine Or.inl (Duplex.ack_moves a o hen fun hid => ?_)
    rcases ho with ho | ho
    · exact ho
    · have hin : a ∈ (l.view e o.transferId).acks :=
        List.mem_filterMap.mpr ⟨.ack a, (Duplex.mem_of_enabled hen rfl).1,
          if_pos hid⟩
      rw [ho] at hin
      cases hin
  | offer now offer =>
    have hans : Answers (l.peer e).1 (l.out p ⟨e, .offer now offer, copy⟩) _ :=
      h.answers hleaves (Or.inl ⟨now, offer, rfl⟩)
    exact Or.inl (Or.inl (Duplex.receive_keeps_view _ (Or.inl ⟨_, _, rfl⟩) hans.sending hans.out))
  | chunk now header data =>
    have hans : Answers (l.peer e).1 (l.out p ⟨e, .chunk now header data, copy⟩) _ :=
      h.answers hleaves (Or.inr ⟨now, header, data, rfl⟩)
    exact Or.inl (Or.inl (Duplex.receive_keeps_view _ (Or.inr ⟨_, _, _, rfl⟩) hans.sending
      hans.out))
  | expire now => exact Or.inl (Duplex.expire_moves_sender o)

theorem offer_in_flight (h : Linked blake3 env folder l) (ho : Known l d o) :
    (l.flight d).filterMap (FileAction.offerOf o.transferId) = [] ∨
      (l.flight d).filterMap (FileAction.offerOf o.transferId) = [o] := by
  rcases h.offers d o.transferId with hnone | ⟨o', b', hmem, hid, hone⟩
  · exact Or.inl hnone
  · rcases ho with ⟨b, hb⟩ | hblank
    · right
      rw [hone, (h.unique d o' b' o b hmem hb hid).1]
    · left
      have hoffered : (l.view d o.transferId).offered = false := by
        rw [hblank]
        rfl
      simpa [Duplex.view] using hoffered

theorem receiver_moves (h : Linked blake3 env folder l)
    (hleaves : ∀ e, (env e).LeavesFiles (folder e)) (hblake : ∀ e, (p e).blake3 = blake3)
    (hen : l.enabled copies c = true) (ho : Known l (!c.side) o) :
    Transfer.Moves blake3 o copies (l.view (!c.side) o.transferId)
      ((l.act p c).view (!c.side) o.transferId) := by
  obtain ⟨e, op, copy⟩ := c
  cases op with
  | send now source =>
    refine Or.inl (Duplex.send_keeps_view _ (Or.inl ⟨_, _, rfl⟩)
      (sendFile_receiving _ _ _ _).1 fun a ha => ?_)
    rcases Duplex.send_cases source with ⟨hnone, -⟩ | ⟨o', bytes, s, hoff, -⟩
    · exact absurd (hnone.symm.trans ha) (by simp)
    · exact absurd (hoff.out.symm.trans ha) (by simp)
  | pump now pick reads =>
    refine Or.inl (Duplex.send_keeps_view _ (Or.inr (Or.inl ⟨_, _, _, rfl⟩))
      (pump_receiving _ _ _ _).1 fun a ha => ?_)
    have hcase := (pump_cases (l.peer e).1 now pick reads).1
    rw [show ((l.peer e).1.pump now pick reads).1 = some (.ack a) from ha] at hcase
    cases hcase
  | ack now a =>
    refine Or.inl (Duplex.send_keeps_view _ (Or.inr (Or.inr ⟨_, _, rfl⟩))
      (onAck_receiving _ _ _).1 fun a ha => ?_)
    cases ha
  | offer now offer => exact Duplex.offer_moves offer o hen (h.offer_in_flight ho)
  | chunk now header data =>
    exact Duplex.chunk_moves header data o hen (h.sheltered e) ((h.downloads e).symm ▸ hleaves e)
      (hblake e)
  | expire now => exact Duplex.expire_moves_receiver o

theorem hashedBy_cases (h : Linked blake3 env folder l)
    (hleaves : ∀ e, (env e).LeavesFiles (folder e)) (p : Bool → Platform) (c : Call) :
    (Duplex.hashedBy (l.out p c) c.op = [] ∧ (∀ o, l.out p c ≠ some (.offer o)) ∧
      (l.peer c.side).1.nextId ≤ (l.left p c).nextId) ∨
    ∃ o bytes s, Duplex.Offered p l c o bytes s := by
  -- Only starting a send makes an offer.
  have hnone : ∀ out : Option FileAction, (∀ o, out ≠ some (.offer o)) →
      Duplex.hashedBy out c.op = [] := by
    intro out hout
    unfold Duplex.hashedBy
    split
    · exact absurd rfl (hout _)
    · rfl
  have hanswer : ∀ {out : Option FileAction}, (out = none ∨ ∃ a, out = some (.ack a)) →
      ∀ o, out ≠ some (.offer o) := by
    rintro out (rfl | ⟨a, rfl⟩) o ho
    · cases ho
    · cases ho
  obtain ⟨e, op, copy⟩ := c
  cases op with
  | send now source =>
    rcases Duplex.send_cases source with ⟨hout, -⟩ | ⟨o', bytes, s, hoff, -⟩
    · have hno := hanswer (Or.inl hout)
      have hnext := (sendFile_cases (p e).blake3 (l.peer e).1 now source).2.1
      exact Or.inl ⟨hnone _ hno, hno, le_of_le_of_eq (Nat.le_succ _) hnext.symm⟩
    · exact Or.inr ⟨o', bytes, s, hoff⟩
  | pump now pick reads =>
    obtain ⟨hcase, hnext, -⟩ := pump_cases (l.peer e).1 now pick reads
    have hno : ∀ o, l.out p ⟨e, .pump now pick reads, copy⟩ ≠ some (.offer o) := by
      intro o ho
      rw [show ((l.peer e).1.pump now pick reads).1 = some (.offer o) from ho] at hcase
      cases hcase
    exact Or.inl ⟨hnone _ hno, hno, hnext.symm.le⟩
  | ack now a =>
    have hno := hanswer (Or.inl rfl)
    exact Or.inl ⟨hnone _ hno, hno, (onAck_cases (l.peer e).1 now a).2.1.symm.le⟩
  | offer now offer =>
    have hans : Answers (l.peer e).1 (l.out p ⟨e, .offer now offer, copy⟩) _ :=
      h.answers hleaves (Or.inl ⟨now, offer, rfl⟩)
    exact Or.inl ⟨hnone _ (hanswer hans.out), hanswer hans.out, hans.nextId.symm.le⟩
  | chunk now header data =>
    have hans : Answers (l.peer e).1 (l.out p ⟨e, .chunk now header data, copy⟩) _ :=
      h.answers hleaves (Or.inr ⟨now, header, data, rfl⟩)
    exact Or.inl ⟨hnone _ (hanswer hans.out), hanswer hans.out, hans.nextId.symm.le⟩
  | expire now =>
    have hno := hanswer (Or.inl rfl)
    exact Or.inl ⟨hnone _ hno, hno,
      (expireStalled_expires (l.peer e).1 now (l.peer e).2).nextId.symm.le⟩

theorem publications_grow (h : Linked blake3 env folder l)
    (hleaves : ∀ e, (env e).LeavesFiles (folder e)) (p : Bool → Platform) (c : Call) :
    ∃ added, publications (FileTransfers.apply (p c.side) (l.peer c.side) c.op).2.2.effects =
      publications (l.peer c.side).2.effects ++ added := by
  obtain ⟨e, op, copy⟩ := c
  cases op with
  | send now source => exact ⟨[], (List.append_nil _).symm⟩
  | pump now pick reads => exact ⟨[], (List.append_nil _).symm⟩
  | ack now a => exact ⟨[], (List.append_nil _).symm⟩
  | offer now offer =>
    refine ⟨[], Eq.trans ?_ (List.append_nil _).symm⟩
    exact (onOffer_cases (p e) (l.peer e).1 now offer (l.peer e).2).2
  | chunk now header data =>
    obtain ⟨added, -, hadded⟩ := onChunk_cases (p e) now header data (h.sheltered e)
      ((h.downloads e).symm ▸ hleaves e)
    exact ⟨added, hadded⟩
  | expire now =>
    refine ⟨[], Eq.trans ?_ (List.append_nil _).symm⟩
    exact (expireStalled_expires (l.peer e).1 now (l.peer e).2).published

theorem mem_hashed_act {x : FileOffer × List UInt8}
    (hx : x ∈ (l.act p c).hashed d) : x ∈ l.hashed d ∨
      d = c.side ∧ x ∈ Duplex.hashedBy (l.out p c) c.op := by
  by_cases hd : d = c.side
  · subst hd
    simp only [Duplex.act, Function.update_self, List.mem_append] at hx
    exact hx.imp id fun hx => ⟨rfl, hx⟩
  · left
    simpa [Duplex.act, Function.update_of_ne hd] using hx

theorem view_nextId (h : Linked blake3 env folder l) (e : Bool) :
    l.view e (l.peer e).1.nextId = .blank := by
  refine h.blank e _ fun o b hob hid => ?_
  have := (h.hashed e o b hob).1
  omega

theorem offers_remaining (h : Linked blake3 env folder l) (hen : l.enabled copies c = true)
    (id : ℕ) :
    (l.remaining c).filterMap (FileAction.offerOf id) = [] ∨
      (l.remaining c).filterMap (FileAction.offerOf id) =
        (l.flight (!c.side)).filterMap (FileAction.offerOf id) := by
  unfold Duplex.remaining
  split
  · rename_i m hm
    obtain ⟨hmem, hcopy⟩ := Duplex.mem_of_enabled hen hm
    cases hoff : m.offerOf id with
    | none => exact Or.inr (filterMap_taken_of_none hoff _ _)
    | some o =>
      left
      obtain ⟨rfl, hid⟩ := FileAction.offerOf_eq_some hoff
      rw [filterMap_taken hoff (fun m hm => (FileAction.offerOf_eq_some hm).1)]
      have hkeep : c.copy = false := by
        by_contra hc
        have := (hcopy (by simpa using hc)).2
        cases this
      have hin : o ∈ (l.flight (!c.side)).filterMap (FileAction.offerOf id) :=
        List.mem_filterMap.mpr ⟨_, hmem, hoff⟩
      rcases h.offers (!c.side) id with hnone | ⟨o', b', -, -, hone⟩
      · rw [hnone] at hin
        cases hin
      · rw [hone] at hin ⊢
        obtain rfl := List.mem_singleton.mp hin
        simp [taken, hkeep]
  · exact Or.inr rfl

theorem mem_hashed_of_mem {x : FileOffer × List UInt8} (hx : x ∈ l.hashed d) :
    x ∈ (l.act p c).hashed d := by
  by_cases hd : d = c.side
  · subst hd
    simp only [Duplex.act, Function.update_self, List.mem_append]
    exact Or.inl hx
  · simpa [Duplex.act, Function.update_of_ne hd] using hx

theorem peer_act_side (p : Bool → Platform) (l : Duplex) (c : Call) :
    (l.act p c).peer c.side = (FileTransfers.apply (p c.side) (l.peer c.side) c.op).2 := by
  simp [Duplex.act]

theorem peer_act_other (hd : d ≠ c.side) : (l.act p c).peer d = l.peer d := by
  simp [Duplex.act, Function.update_of_ne hd]

theorem eq_other (hd : d ≠ c.side) : d = !c.side := by
  cases hc : c.side <;> cases d <;> simp_all

theorem hashed_act (h : Linked blake3 env folder l) (hleaves : ∀ e, (env e).LeavesFiles (folder e))
    {b : List UInt8} (hx : (o, b) ∈ (l.act p c).hashed d) :
    (o, b) ∈ l.hashed d ∨ d = c.side ∧ ∃ s, Duplex.Offered p l c o b s := by
  rcases mem_hashed_act hx with hold | ⟨hd, hnew⟩
  · exact Or.inl hold
  · right
    refine ⟨hd, ?_⟩
    rcases h.hashedBy_cases hleaves p c with ⟨hnil, -⟩ | ⟨o', b', s, hoff⟩
    · rw [hnil] at hnew
      cases hnew
    · rw [hoff.hashed, List.mem_singleton] at hnew
      cases hnew
      exact ⟨s, hoff⟩

/-- How a call leaves a transfer that was offered before or by it. -/
def Evolves (blake3 : List UInt8 → Text) (copies : Bool) (l l' : Duplex) (d : Bool)
    (o : FileOffer) (b : List UInt8) : Prop :=
  (o, b) ∈ l.hashed d ∧
      Transfer.Moves blake3 o copies (l.view d o.transferId) (l'.view d o.transferId) ∨
    ∃ s, Starts o s ∧ l'.view d o.transferId = Transfer.start s

/-- **One call moves every transfer by a step of its own, or not at all.** -/
theorem evolves (h : Linked blake3 env folder l)
    (hleaves : ∀ e, (env e).LeavesFiles (folder e)) (hblake : ∀ e, (p e).blake3 = blake3)
    (hen : l.enabled copies c = true) {b : List UInt8}
    (ho : (o, b) ∈ (l.act p c).hashed d) : Evolves blake3 copies l (l.act p c) d o b := by
  rcases h.hashed_act hleaves ho with hold | ⟨rfl, s, hoff⟩
  · left
    refine ⟨hold, ?_⟩
    have hknown : Known l d o := Or.inl ⟨b, hold⟩
    by_cases hd : d = c.side
    · subst hd
      rcases h.sender_moves hleaves hen hknown with hm | ⟨o', bytes, s, hid, hoff⟩
      · exact hm
      · have := (h.hashed _ o b hold).1
        have := hoff.id
        omega
    · obtain rfl := eq_other hd
      exact h.receiver_moves hleaves hblake hen hknown
  · right
    refine ⟨s, hoff.starts, ?_⟩
    rw [hoff.view, hoff.id, h.view_nextId]
    rfl

theorem nextId_act (h : Linked blake3 env folder l) (hleaves : ∀ e, (env e).LeavesFiles (folder e))
    (d : Bool) : (l.peer d).1.nextId ≤ ((l.act p c).peer d).1.nextId := by
  by_cases hd : d = c.side
  · subst hd
    rw [peer_act_side]
    rcases h.hashedBy_cases hleaves p c with ⟨-, -, hle⟩ | ⟨o', b', s, hoff⟩
    · exact hle
    · exact le_of_le_of_eq (Nat.le_succ _) hoff.nextId.symm
  · rw [peer_act_other hd]

theorem offers_act (h : Linked blake3 env folder l) (hleaves : ∀ e, (env e).LeavesFiles (folder e))
    (hen : l.enabled copies c = true) (e : Bool) (id : ℕ) :
    ((l.act p c).flight e).filterMap (FileAction.offerOf id) = [] ∨
      ∃ o b, (o, b) ∈ (l.act p c).hashed e ∧ o.transferId = id ∧
        ((l.act p c).flight e).filterMap (FileAction.offerOf id) = [o] := by
  have hkept : ∀ {flight : List FileAction}, flight.filterMap (FileAction.offerOf id) =
      (l.flight e).filterMap (FileAction.offerOf id) →
      flight.filterMap (FileAction.offerOf id) = [] ∨
        ∃ o b, (o, b) ∈ (l.act p c).hashed e ∧ o.transferId = id ∧
          flight.filterMap (FileAction.offerOf id) = [o] := by
    intro flight hsame
    rcases h.offers e id with hnone | ⟨o, b, hmem, hid, hone⟩
    · exact Or.inl (hsame.trans hnone)
    · exact Or.inr ⟨o, b, mem_hashed_of_mem hmem, hid, hsame.trans hone⟩
  by_cases he : e = c.side
  · subst he
    have hflight : (l.act p c).flight c.side = l.flight c.side ++ (l.out p c).toList := by
      simp [Duplex.act, Duplex.out]
    rw [hflight]
    rcases h.hashedBy_cases hleaves p c with ⟨-, hno, -⟩ | ⟨o', b', s, hoff⟩
    · refine hkept ?_
      rw [List.filterMap_append]
      cases hout : l.out p c with
      | none => exact List.append_nil _
      | some m =>
        cases m with
        | offer o => exact absurd hout (hno o)
        | _ => exact List.append_nil _
    · rw [hoff.out]
      by_cases hid : o'.transferId = id
      · right
        have hnil : (l.flight c.side).filterMap (FileAction.offerOf id) = [] := by
          have hblank := h.view_nextId c.side
          rw [← hoff.id, hid] at hblank
          have hoffered : (l.view c.side id).offered = false := by
            rw [hblank]
            rfl
          simpa [Duplex.view] using hoffered
        refine ⟨o', b', ?_, hid, ?_⟩
        · simp [Duplex.act, hoff.hashed]
        · simp [hnil, FileAction.offerOf, hid]
      · refine hkept ?_
        simp [FileAction.offerOf, hid]
  · obtain rfl := eq_other he
    have hflight : (l.act p c).flight (!c.side) = l.remaining c := by
      simp [Duplex.act]
    rw [hflight]
    rcases h.offers_remaining hen id with hnone | hsame
    · exact Or.inl hnone
    · exact hkept hsame

theorem blank_act (h : Linked blake3 env folder l) (hleaves : ∀ e, (env e).LeavesFiles (folder e))
    (hblake : ∀ e, (p e).blake3 = blake3) (hen : l.enabled copies c = true) {e : Bool} {id : ℕ}
    (hno : ∀ o b, (o, b) ∈ (l.act p c).hashed e → o.transferId ≠ id) :
    (l.act p c).view e id = .blank := by
  have hblank : l.view e id = .blank := h.blank e id fun o b hx => hno o b (mem_hashed_of_mem hx)
  -- Any offer with this number stands for the transfer that is not there.
  let o : FileOffer := ⟨id, [], 0, [], none⟩
  have hmoves : Transfer.Moves blake3 o copies (l.view e o.transferId)
      ((l.act p c).view e o.transferId) := by
    by_cases he : e = c.side
    · subst he
      rcases h.sender_moves (o := o) hleaves hen (Or.inr hblank) with
        hm | ⟨o', bytes, s, hid, hoff⟩
      · exact hm
      · refine absurd hid (hno o' bytes ?_)
        simp [Duplex.act, hoff.hashed]
    · obtain rfl := eq_other he
      exact h.receiver_moves hleaves hblake hen (Or.inr hblank)
  rcases hmoves with hsame | hstep
  · exact hsame.trans hblank
  · rw [show l.view e o.transferId = .blank from hblank] at hstep
    exact hstep.of_blank

theorem published_act (h : Linked blake3 env folder l)
    (hleaves : ∀ e, (env e).LeavesFiles (folder e)) {e : Bool} {id : ℕ} {path : PathBuf}
    {contents : List UInt8} (hx : (id, path, contents) ∈ (l.act p c).published e) :
    (path, contents) ∈ publications ((l.act p c).peer e).2.effects := by
  by_cases he : e = c.side
  · subst he
    obtain ⟨added, hadded⟩ := h.publications_grow hleaves p c
    rw [peer_act_side, hadded]
    simp only [Duplex.act, Function.update_self, List.mem_append] at hx
    rcases hx with hx | hx
    · exact List.mem_append_left _ (h.published c.side id path contents hx)
    · refine List.mem_append_right _ ?_
      unfold Duplex.publishedBy at hx
      split at hx
      · rw [hadded, List.drop_left, List.mem_map] at hx
        obtain ⟨x, hx, heq⟩ := hx
        cases heq
        exact hx
      · cases hx
  · rw [peer_act_other he]
    refine h.published e id path contents ?_
    simpa [Duplex.act, Function.update_of_ne he] using hx

/-- **Every call keeps the two engines linked.** -/
theorem act (h : Linked blake3 env folder l)
    (hleaves : ∀ e, (env e).LeavesFiles (folder e)) (hblake : ∀ e, (p e).blake3 = blake3)
    (huuid : ∀ e, Function.Injective (env e).uuids) (hen : l.enabled copies c = true) :
    Linked blake3 env folder (l.act p c) where
  sheltered e := by
    by_cases he : e = c.side
    · subst he
      rw [peer_act_side]
      exact (h.sheltered c.side).apply (huuid c.side) c.op
    · rw [peer_act_other he]
      exact h.sheltered e
  downloads e := by
    by_cases he : e = c.side
    · subst he
      rw [peer_act_side, FileTransfers.apply_downloads]
      exact h.downloads c.side
    · rw [peer_act_other he]
      exact h.downloads e
  hashed e o b hx := by
    rcases h.hashed_act hleaves hx with hx | ⟨rfl, s, hoff⟩
    · obtain ⟨hid, hrest⟩ := h.hashed e o b hx
      exact ⟨lt_of_lt_of_le hid (h.nextId_act hleaves e), hrest⟩
    · refine ⟨?_, hoff.size, hblake c.side ▸ hoff.hash⟩
      rw [peer_act_side]
      have hn : (FileTransfers.apply (p c.side) (l.peer c.side) c.op).2.1.nextId = _ := hoff.nextId
      rw [hn, hoff.id]
      exact Nat.lt_succ_self _
  unique e o b o' b' hx hx' hid := by
    rcases h.hashed_act hleaves hx with hx | ⟨rfl, s, hoff⟩
    · rcases h.hashed_act hleaves hx' with hx' | ⟨rfl, s', hoff'⟩
      · exact h.unique e o b o' b' hx hx' hid
      · have := (h.hashed _ o b hx).1
        have := hoff'.id
        omega
    · rcases h.hashed_act hleaves hx' with hx' | ⟨-, s', hoff'⟩
      · have := (h.hashed _ o' b' hx').1
        have := hoff.id
        omega
      · simpa using hoff.hashed.symm.trans hoff'.hashed
  offers := h.offers_act hleaves hen
  blank _ _ hno := h.blank_act hleaves hblake hen hno
  published _ _ _ _ hx := h.published_act hleaves hx

theorem start (blake3 : List UInt8 → Text) (env : Bool → Env) (fs : Bool → FileSystem)
    (folder : Bool → PathBuf) (permitted : Bool → Bool) :
    Linked blake3 env folder (Duplex.start env fs folder permitted) where
  sheltered e := Sheltered.start (env e) (fs e) (folder e) (permitted e)
  downloads _ := rfl
  hashed _ _ _ hx := by cases hx
  unique _ _ _ _ _ hx := by cases hx
  offers _ _ := Or.inl rfl
  blank e id _ := by simp [Duplex.view, Duplex.start, FileTransfers.new, Transfer.blank]
  published _ _ _ _ hx := by cases hx

end Linked

/-! ### Runs -/

section Runs

variable {blake3 : List UInt8 → Text} {p : Bool → Platform} {env : Bool → Env}
  {fs : Bool → FileSystem} {folder : Bool → PathBuf} {permitted : Bool → Bool} {copies : Bool}
  {l l' : Duplex}

theorem Duplex.step_cases {c : Call} (h : l.step p copies c = some l') :
    l.enabled copies c = true ∧ l' = l.act p c := by
  unfold Duplex.step at h
  split at h
  · rename_i hen
    exact ⟨hen, (Option.some.inj h).symm⟩
  · cases h

theorem linked_of_reach (hleaves : ∀ e, (env e).LeavesFiles (folder e))
    (hblake : ∀ e, (p e).blake3 = blake3) (huuid : ∀ e, Function.Injective (env e).uuids)
    (hr : Reach (Duplex.step p copies) (Duplex.start env fs folder permitted) l) :
    Linked blake3 env folder l := by
  refine hr.invariant (Linked.start blake3 env fs folder permitted) fun s s' c h hs => ?_
  obtain ⟨hen, rfl⟩ := Duplex.step_cases hs
  exact h.act hleaves hblake huuid hen

/-- **Transfer rule.**  What holds of a transfer just offered and is kept by its
steps holds of every transfer in every reachable state. -/
theorem transfers_of_reach {P : FileOffer → Transfer → Prop}
    (hleaves : ∀ e, (env e).LeavesFiles (folder e))
    (hblake : ∀ e, (p e).blake3 = blake3) (huuid : ∀ e, Function.Injective (env e).uuids)
    (hstart : ∀ o s, Starts o s → P o (Transfer.start s))
    (hstep : ∀ o t t', o.size ≤ maxFile → P o t → Transfer.Step blake3 o copies t t' → P o t')
    (hr : Reach (Duplex.step p copies) (Duplex.start env fs folder permitted) l) :
    ∀ d o b, (o, b) ∈ l.hashed d → P o (l.view d o.transferId) := by
  refine hr.invariant_with
    (P := fun l => ∀ d o b, (o, b) ∈ l.hashed d → P o (l.view d o.transferId))
    (fun s hs => linked_of_reach hleaves hblake huuid hs) (fun d o b hx => (by cases hx)) ?_
  intro s s' c hlinked ih hs d o b hx
  obtain ⟨hen, rfl⟩ := Duplex.step_cases hs
  rcases hlinked.evolves hleaves hblake hen hx with ⟨hold, hsame | hmove⟩ | ⟨st, hst, hview⟩
  · rw [hsame]
    exact ih d o b hold
  · exact hstep o _ _ (hlinked.hashed d o b hold).2.1 (ih d o b hold) hmove
  · rw [hview]
    exact hstart o st hst

end Runs

end NebulaDesk
