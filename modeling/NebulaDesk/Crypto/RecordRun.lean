/-
Runs of the record layer: exactly-once, authentic opening.

`RecordRun` collects the calls made through any number of clones of one
`RecordSealer` and of the peer's `RecordOpener`; its steps are the calls, each
atomic in the source (an atomic counter, a mutex held for the whole of `open`).
What reaches `open` is any byte string on any channel, so loss, duplication,
reordering, truncation and forgery are all among the runs.

Decryption is idealised: it answers from the ledger of what was sealed, so it
succeeds on exactly the nonce, header and ciphertext of a sealed record.

* `RecordRun.Inv` — the invariant of every run;
* `recordRun_exactlyOnce` — nonces are unique, a sealed record is opened at most
  once and unaltered, a refused record changes nothing, and a genuine record
  near the newest one is accepted;
* `overtaken_record_refused` — nearness is measured by the counter, not by the
  number of newer records opened.
-/
import NebulaDesk.Crypto.Record
import NebulaDesk.Lib.Runs

namespace NebulaDesk

open Bytes Runs

structure Sealing where
  channel : Channel
  counter : ℕ
  header : MsgHeader
  payload : List UInt8
  ciphertext : List UInt8
deriving DecidableEq

namespace Sealing

def nonce (e : Sealing) : List UInt8 := nonceFor e.channel e.counter

def record (e : Sealing) : List UInt8 := e.header.toBytes ++ e.ciphertext

end Sealing

def idealDecrypt (ledger : List Sealing) (nonce aad ciphertext : List UInt8) :
    Option (List UInt8) :=
  (ledger.find? fun e =>
    e.nonce = nonce ∧ e.header.toBytes = aad ∧ e.ciphertext = ciphertext).map (·.payload)

theorem idealDecrypt_eq_some {ledger : List Sealing} {nonce aad ciphertext p : List UInt8}
    (h : idealDecrypt ledger nonce aad ciphertext = some p) :
    ∃ e ∈ ledger, e.nonce = nonce ∧ e.header.toBytes = aad ∧ e.ciphertext = ciphertext ∧
      e.payload = p := by
  obtain ⟨e, hf, rfl⟩ := Option.map_eq_some_iff.mp h
  have hp := List.find?_some hf
  simp only [decide_eq_true_eq] at hp
  exact ⟨e, List.mem_of_find?_eq_some hf, hp.1, hp.2.1, hp.2.2, rfl⟩

theorem idealDecrypt_isSome {ledger : List Sealing} {e : Sealing} (h : e ∈ ledger) :
    ∃ p, idealDecrypt ledger e.nonce e.header.toBytes e.ciphertext = some p := by
  rw [idealDecrypt]
  cases hf : ledger.find? fun e' =>
      e'.nonce = e.nonce ∧ e'.header.toBytes = e.header.toBytes ∧ e'.ciphertext = e.ciphertext with
  | none =>
    have := List.find?_eq_none.mp hf e h
    simp at this
  | some e' => exact ⟨e'.payload, rfl⟩

/-- One call of `open`, with the counter its nonce was built from. -/
structure OpenCall where
  channel : Channel
  record : List UInt8
  counter : ℕ
  outcome : Except CryptoError (MsgHeader × List UInt8)

/-- Whether the call returned a plaintext. -/
def OpenCall.succeeded (c : OpenCall) : Bool := c.outcome.isOk

structure RecordRun where
  sealer : RecordSealer
  opener : RecordOpener
  sealed : List Sealing
  calls : List OpenCall

/-- A call through some clone of the sealer or of the opener. -/
inductive RecordEvent
  | sealCall (channel : Channel) (kind : MsgKind) (flags : MsgFlags) (seq : UInt32)
      (timestampUs : UInt64) (payload : List UInt8)
  | openCall (channel : Channel) (record : List UInt8)

namespace RecordRun

def init : RecordRun := ⟨RecordSealer.new, RecordOpener.new, [], []⟩

/-- The ledger entry of sealing under the next counter of `channel`. -/
def entry (cipher : Cipher) (w : RecordRun) (channel : Channel) (header : MsgHeader)
    (payload : List UInt8) : Sealing where
  channel := channel
  counter := w.sealer.counters channel
  header := { header with seq := UInt32.ofNat (w.sealer.counters channel) }
  payload := payload
  ciphertext := (w.sealer.sealRecord cipher channel header payload).1.drop headerLen

/-- What `open` answers in this state. -/
def answer (w : RecordRun) (channel : Channel) (record : List UInt8) :
    Except CryptoError (MsgHeader × List UInt8) × RecordOpener :=
  w.opener.openRecord (idealDecrypt w.sealed) channel record

/-- The counter `open` tries for a record with this header. -/
def tried (w : RecordRun) (channel : Channel) (record : List UInt8) : ℕ :=
  match MsgHeader.split record with
  | .ok (header, _) => (w.opener.channels channel).expander.expand header.seq
  | .error _ => 0

def step (cipher : Cipher) (w : RecordRun) : RecordEvent → RecordRun
  | .sealCall channel kind flags seq timestampUs payload =>
    let header := (MsgHeader.new kind seq timestampUs).withFlags flags
    { w with
      sealer := (w.sealer.sealRecord cipher channel header payload).2
      sealed := w.sealed ++ [w.entry cipher channel header payload] }
  | .openCall channel record =>
    { w with
      opener := (w.answer channel record).2
      calls := w.calls ++
        [⟨channel, record, w.tried channel record, (w.answer channel record).1⟩] }

/-- How many records were sealed on a channel. -/
def sealedOn (w : RecordRun) (channel : Channel) : ℕ :=
  w.sealed.countP (·.channel = channel)

def openedOn (w : RecordRun) (channel : Channel) : List ℕ :=
  (w.calls.filter fun c => c.succeeded && c.channel = channel).map (·.counter)

/-- The invariant of every run. -/
structure Inv (w : RecordRun) : Prop where
  counter : ∀ ch, w.sealer.counters ch = w.sealedOn ch % 2 ^ 64
  below : ∀ e ∈ w.sealed, e.counter < 2 ^ 64
  header : ∀ e ∈ w.sealed, e.header.version = protocolVersion ∧
    e.header.seq = UInt32.ofNat e.counter
  tagged : ∀ e ∈ w.sealed, aeadTagLen ≤ e.ciphertext.length
  ordered : (∀ ch, w.sealedOn ch < 2 ^ 64) →
    w.sealed.Pairwise (fun a b => a.channel = b.channel → a.counter < b.counter) ∧
      ∀ e ∈ w.sealed, e.counter < w.sealedOn e.channel
  opener : ∀ ch, (w.opener.channels ch).Holds (ChannelState.widthOf ch) {s | s ∈ w.openedOn ch}
  authentic : ∀ c ∈ w.calls, ∀ h p, c.outcome = .ok (h, p) →
    ∃ e ∈ w.sealed, e.channel = c.channel ∧ e.counter = c.counter ∧ e.record = c.record ∧
      e.header = h ∧ e.payload = p
  once : (w.calls.filter (·.succeeded)).Pairwise fun a b =>
    ¬ (a.channel = b.channel ∧ a.counter = b.counter)

theorem inv_init : init.Inv where
  counter := by intro ch; rfl
  below := by simp [init]
  header := by simp [init]
  tagged := by simp [init]
  ordered := by simp [init]
  opener := by
    intro ch
    have h := ChannelState.holds_new ch
    have hset : ({s | s ∈ init.openedOn ch} : Set ℕ) = ∅ := by
      ext s
      simp [init, openedOn]
    rw [hset]
    exact h
  authentic := by simp [init]
  once := by simp [init]

variable {cipher : Cipher} {w : RecordRun}

theorem entry_ciphertext (channel : Channel) (header : MsgHeader) (payload : List UInt8) :
    (w.entry cipher channel header payload).ciphertext =
      cipher.encrypt (nonceFor channel (w.sealer.counters channel))
        (w.entry cipher channel header payload).header.toBytes payload := by
  rw [entry, RecordSealer.sealRecord, List.drop_left']
  simp

theorem sealedOn_step_seal (channel ch : Channel) (kind : MsgKind) (flags : MsgFlags)
    (seq : UInt32) (ts : UInt64) (payload : List UInt8) :
    (w.step cipher (.sealCall channel kind flags seq ts payload)).sealedOn ch =
      w.sealedOn ch + if channel = ch then 1 else 0 := by
  simp only [step, sealedOn, List.countP_append, List.countP_cons, List.countP_nil, entry,
    zero_add, decide_eq_true_eq]

theorem inv_step_seal (h : w.Inv) (channel : Channel) (kind : MsgKind) (flags : MsgFlags)
    (seq : UInt32) (ts : UInt64) (payload : List UInt8) :
    (w.step cipher (.sealCall channel kind flags seq ts payload)).Inv := by
  have hcount := @sealedOn_step_seal cipher w channel
  set header := (MsgHeader.new kind seq ts).withFlags flags with hheader
  set e := w.entry cipher channel header payload with he
  have hmem : ∀ {P : Sealing → Prop}, (∀ x ∈ w.sealed, P x) → P e →
      ∀ x ∈ w.sealed ++ [e], P x := by
    intro P hall hnew x hx
    rcases List.mem_append.mp hx with hx | hx
    · exact hall x hx
    · obtain rfl := List.mem_singleton.mp hx
      exact hnew
  have hctr : e.counter = w.sealedOn channel % 2 ^ 64 := h.counter channel
  exact
    { counter := by
        intro ch
        rw [hcount]
        have hch : (w.step cipher (.sealCall channel kind flags seq ts payload)).sealer.counters ch
            = Function.update w.sealer.counters channel
                ((w.sealer.counters channel + 1) % 2 ^ 64) ch := rfl
        rw [hch, Function.update_apply]
        by_cases hc : ch = channel
        · subst hc
          rw [if_pos rfl, if_pos rfl, h.counter]
          omega
        · rw [if_neg hc, if_neg (Ne.symm hc), h.counter]
          rfl
      below := hmem h.below (by rw [hctr]; omega)
      header := hmem h.header ⟨rfl, rfl⟩
      tagged := hmem h.tagged (by
        rw [he, entry_ciphertext, cipher.length_encrypt]
        omega)
      ordered := by
        intro hfew
        have hfew' : ∀ ch, w.sealedOn ch < 2 ^ 64 := by
          intro ch
          have := hfew ch
          rw [hcount] at this
          omega
        obtain ⟨hpair, hlt⟩ := h.ordered hfew'
        have hself : e.counter = w.sealedOn channel := by
          rw [hctr, Nat.mod_eq_of_lt (hfew' channel)]
        refine ⟨List.pairwise_append.mpr ⟨hpair, by simp, ?_⟩, hmem ?_ ?_⟩
        · intro a ha b hb hab
          obtain rfl := List.mem_singleton.mp hb
          have := hlt a ha
          rw [hab] at this
          rw [hself]
          exact this
        · intro x hx
          rw [hcount]
          exact lt_of_lt_of_le (hlt x hx) (Nat.le_add_right _ _)
        · rw [hcount, hself]
          have : e.channel = channel := rfl
          rw [this, if_pos rfl]
          omega
      opener := h.opener
      authentic := by
        intro c hc hd p ho
        obtain ⟨x, hx, hprop⟩ := h.authentic c hc hd p ho
        exact ⟨x, List.mem_append_left _ hx, hprop⟩
      once := h.once }

theorem answer_error {channel : Channel} {record : List UInt8} {err : CryptoError}
    (h : (w.answer channel record).1 = .error err) : (w.answer channel record).2 = w.opener := by
  unfold answer RecordOpener.openRecord at *
  by_cases hlen : record.length < headerLen + aeadTagLen
  · rw [if_pos hlen]
  · rw [if_neg hlen] at h ⊢
    cases hs : MsgHeader.split record with
    | error e => rfl
    | ok hr =>
      obtain ⟨header, ct⟩ := hr
      simp only [hs] at h ⊢
      cases ho : (w.opener.channels channel).openWith channel header.seq
          fun seq => idealDecrypt w.sealed (nonceFor channel seq) header.toBytes ct with
      | mk result state =>
        rw [ho] at h
        cases result with
        | ok a => exact absurd h (by simp [Except.map])
        | error e' =>
          obtain rfl := ChannelState.openWith_error ho
          simp

theorem candidate_lt (wire : UInt32) (roc : ℕ) : SeqExpander.candidate wire roc < 2 ^ 64 := by
  have hw : wire.toNat < 2 ^ 32 := wire.toNat_lt
  exact Nat.or_lt_two_pow (Nat.mod_lt _ (by norm_num)) (by omega)

theorem expand_lt (e : SeqExpander) (wire : UInt32) : e.expand wire < 2 ^ 64 := by
  have hw : wire.toNat < 2 ^ 32 := wire.toNat_lt
  have hc := candidate_lt wire
  unfold SeqExpander.expand
  by_cases hst : e.started = true
  · simp only [hst, Bool.not_true, Bool.false_eq_true, if_false]
    split_ifs <;> exact hc _
  · simp only [hst, Bool.not_false, if_true]
    omega

/-- What `open` returns was sealed, on that channel, under the counter tried,
with that header and payload; the counter is then recorded. -/
theorem answer_ok (hinv : w.Inv) {channel : Channel} {record : List UInt8} {hd : MsgHeader}
    {p : List UInt8} (h : (w.answer channel record).1 = .ok (hd, p)) :
    (∃ e ∈ w.sealed, e.channel = channel ∧ e.counter = w.tried channel record ∧
      e.record = record ∧ e.header = hd ∧ e.payload = p) ∧
    w.tried channel record ∉ w.openedOn channel ∧
    ∀ ch, ((w.answer channel record).2.channels ch).Holds (ChannelState.widthOf ch)
      (if ch = channel then insert (w.tried channel record) {s | s ∈ w.openedOn ch}
        else {s | s ∈ w.openedOn ch}) := by
  unfold answer tried RecordOpener.openRecord at *
  by_cases hlen : record.length < headerLen + aeadTagLen
  · rw [if_pos hlen] at h
    exact absurd h (by simp)
  · rw [if_neg hlen] at h ⊢
    cases hs : MsgHeader.split record with
    | error e => simp [hs] at h
    | ok hr =>
      obtain ⟨header, ct⟩ := hr
      simp only [hs] at h ⊢
      cases ho : (w.opener.channels channel).openWith channel header.seq
          fun seq => idealDecrypt w.sealed (nonceFor channel seq) header.toBytes ct with
      | mk result state =>
        rw [ho] at h
        cases result with
        | error e' => exact absurd h (by simp [Except.map])
        | ok a =>
          obtain ⟨hdec, hnew, hst⟩ := ChannelState.openWith_ok (hinv.opener channel) ho
          simp only [Except.map, Except.ok.injEq, Prod.mk.injEq] at h
          obtain ⟨rfl, rfl⟩ := h
          obtain ⟨e, he, hn, haad, hct, hp⟩ := idealDecrypt_eq_some hdec
          obtain ⟨hch, hctr⟩ := nonceFor_inj (hinv.below e he) (expand_lt _ _) hn
          obtain ⟨hver, hrec⟩ := MsgHeader.split_eq_ok hs
          have hhead : e.header = header := by
            have h1 := MsgHeader.split_toBytes (hinv.header e he).1 []
            have h2 := MsgHeader.split_toBytes hver []
            rw [haad, h2] at h1
            exact (Prod.mk.inj (Except.ok.inj h1)).1.symm
          refine ⟨⟨e, he, hch, hctr, ?_, hhead, hp⟩, hnew, ?_⟩
          · rw [Sealing.record, hrec, hct, hhead]
          · intro ch
            by_cases hc : ch = channel
            · subst hc
              simpa using hst
            · simpa [hc, Function.update_of_ne hc] using hinv.opener ch

theorem openedOn_step_open (channel ch : Channel) (record : List UInt8) :
    (w.step cipher (.openCall channel record)).openedOn ch =
      w.openedOn ch ++
        if (w.answer channel record).1.isOk ∧ channel = ch then [w.tried channel record]
        else [] := by
  simp only [step, openedOn, List.filter_append, List.map_append]
  congr 1
  by_cases hch : channel = ch
  · subst hch
    cases hok : (w.answer channel record).1.isOk <;> simp [OpenCall.succeeded, List.filter, hok]
  · simp [List.filter, hch]

theorem inv_step_open (h : w.Inv) (channel : Channel) (record : List UInt8) :
    (w.step cipher (.openCall channel record)).Inv := by
  have hopened := fun ch => @openedOn_step_open cipher w channel ch record
  cases hans : (w.answer channel record).1 with
  | error err =>
    have hnone : ∀ ch, (w.step cipher (.openCall channel record)).openedOn ch = w.openedOn ch := by
      intro ch
      rw [hopened, hans]
      simp [Except.isOk, Except.toBool]
    have hfilter : (w.step cipher (.openCall channel record)).calls.filter (·.succeeded) =
        w.calls.filter (·.succeeded) := by
      simp [step, OpenCall.succeeded, hans, Except.isOk, Except.toBool]
    exact
      { h with
        opener := by
          intro ch
          rw [hnone, step, answer_error hans]
          exact h.opener ch
        authentic := by
          intro c hc hd p ho
          rcases List.mem_append.mp hc with hc | hc
          · exact h.authentic c hc hd p ho
          · obtain rfl := List.mem_singleton.mp hc
            rw [hans] at ho
            cases ho
        once := by rw [hfilter]; exact h.once }
  | ok hp =>
    obtain ⟨hd, p⟩ := hp
    obtain ⟨hex, hnew, hopen⟩ := answer_ok h hans
    have hfilter : (w.step cipher (.openCall channel record)).calls.filter (·.succeeded) =
        w.calls.filter (·.succeeded) ++
          [⟨channel, record, w.tried channel record, .ok (hd, p)⟩] := by
      simp [step, OpenCall.succeeded, hans, Except.isOk, Except.toBool]
    exact
      { h with
        opener := by
          intro ch
          have hset : ({s | s ∈ (w.step cipher (.openCall channel record)).openedOn ch} : Set ℕ) =
              if ch = channel then insert (w.tried channel record) {s | s ∈ w.openedOn ch}
              else {s | s ∈ w.openedOn ch} := by
            ext s
            rw [hopened, hans]
            by_cases hc : ch = channel
            · subst hc
              simp [Except.isOk, Except.toBool, or_comm]
            · simp [hc, Ne.symm hc]
          rw [hset]
          exact hopen ch
        authentic := by
          intro c hc hd' p' ho
          rcases List.mem_append.mp hc with hc | hc
          · exact h.authentic c hc hd' p' ho
          · obtain rfl := List.mem_singleton.mp hc
            rw [hans] at ho
            cases ho
            exact hex
        once := by
          rw [hfilter]
          refine List.pairwise_append.mpr ⟨h.once, by simp, ?_⟩
          rintro a ha b hb ⟨hch, hctr⟩
          obtain rfl := List.mem_singleton.mp hb
          obtain ⟨hmem, hsucc⟩ := List.mem_filter.mp ha
          -- An earlier success under the same counter would already be recorded.
          refine hnew (List.mem_map.mpr ⟨a, List.mem_filter.mpr ⟨hmem, ?_⟩, hctr⟩)
          simp only at hch
          simp [hsucc, hch] }

theorem inv_run (cipher : Cipher) (events : List RecordEvent) :
    (run (step cipher) init events).Inv := by
  refine run_invariant ?_ inv_init events
  intro w e h
  cases e with
  | sealCall channel kind flags seq ts payload => exact inv_step_seal h ..
  | openCall channel record => exact inv_step_open h ..

/-! ### Exactly once -/

/-- The calls a run makes do not depend on the calls made before, beyond the
sealer, the opener and the ledger they left. -/
theorem run_calls_congr (cipher : Cipher) {v : RecordRun} (hs : v.sealer = w.sealer)
    (ho : v.opener = w.opener) (hl : v.sealed = w.sealed) (later : List RecordEvent) :
    ∃ calls, (run (step cipher) v later).calls = v.calls ++ calls ∧
      (run (step cipher) w later).calls = w.calls ++ calls := by
  induction later generalizing v w with
  | nil => exact ⟨[], by simp, by simp⟩
  | cons e es ih =>
    cases e with
    | sealCall channel kind flags seq ts payload =>
      obtain ⟨calls, hv, hw⟩ := ih (v := v.step cipher (.sealCall channel kind flags seq ts payload))
        (w := w.step cipher (.sealCall channel kind flags seq ts payload))
        (by simp [step, hs]) (by simp [step, ho]) (by simp [step, entry, hs, hl])
      exact ⟨calls, hv, hw⟩
    | openCall channel record =>
      have hans : v.answer channel record = w.answer channel record := by
        rw [answer, answer, ho, hl]
      have htried : v.tried channel record = w.tried channel record := by
        rw [tried, tried, ho]
      obtain ⟨calls, hv, hw⟩ := ih (v := v.step cipher (.openCall channel record))
        (w := w.step cipher (.openCall channel record))
        (by simp [step, hs]) (by simp [step, hans]) (by simp [step, hl])
      refine ⟨⟨channel, record, w.tried channel record, (w.answer channel record).1⟩ :: calls, ?_, ?_⟩
      · rw [run_cons, hv]
        simp [step, hans, htried]
      · rw [run_cons, hw]
        simp [step]

/-- What the record layer guarantees in one state of a run. -/
structure ExactlyOnce (cipher : Cipher) (w : RecordRun) : Prop where
  /-- No two sealed records share a nonce. -/
  nonces : w.sealed.Pairwise fun a b => a.nonce ≠ b.nonce
  /-- What was opened is what was sealed: channel, bytes, header and payload. -/
  authentic : ∀ c ∈ w.calls, ∀ h p, c.outcome = .ok (h, p) →
    ∃ e ∈ w.sealed, e.channel = c.channel ∧ e.counter = c.counter ∧ e.record = c.record ∧
      e.header = h ∧ e.payload = p
  /-- No sealed record is opened twice. -/
  once : (w.calls.filter (·.succeeded)).Pairwise fun a b =>
    ¬ (a.channel = b.channel ∧ a.counter = b.counter)
  /-- A call that returns an error changes no later outcome. -/
  refused : ∀ channel record err, (w.answer channel record).1 = .error err → ∀ later,
    ∃ calls, (run (step cipher) (w.step cipher (.openCall channel record)) later).calls =
        (w.step cipher (.openCall channel record)).calls ++ calls ∧
      (run (step cipher) w later).calls = w.calls ++ calls
  /-- A genuine record not opened yet is accepted when its counter is less than
  the window width behind the newest opened one and less than `2 ^ 31` ahead of
  it (below `2 ^ 32` while nothing was opened). -/
  accepted : ∀ e ∈ w.sealed, e.counter ∉ w.openedOn e.channel →
    (w.openedOn e.channel = [] → e.counter < 2 ^ 32) →
    (w.openedOn e.channel ≠ [] → ∃ t ∈ w.openedOn e.channel, e.counter < t + 2 ^ 31) →
    (∀ t ∈ w.openedOn e.channel,
      t < e.counter ∨ t - e.counter < ChannelState.widthOf e.channel) →
    (w.answer e.channel e.record).1 = .ok (e.header, e.payload)

theorem nonces_of_ordered (h : w.Inv) (hfew : ∀ ch, w.sealedOn ch < 2 ^ 64) :
    w.sealed.Pairwise fun a b => a.nonce ≠ b.nonce := by
  refine (h.ordered hfew).1.imp_of_mem fun {a b} ha hb hlt hn => ?_
  obtain ⟨hch, hctr⟩ := nonceFor_inj (h.below a ha) (h.below b hb) hn
  exact absurd (hlt hch) (by omega)

theorem idealDecrypt_sealed (hn : w.sealed.Pairwise fun a b => a.nonce ≠ b.nonce)
    {e : Sealing} (he : e ∈ w.sealed) :
    idealDecrypt w.sealed e.nonce e.header.toBytes e.ciphertext = some e.payload := by
  obtain ⟨p, hp⟩ := idealDecrypt_isSome he
  obtain ⟨e', he', hnonce, -, -, rfl⟩ := idealDecrypt_eq_some hp
  have hsymm : Std.Symm fun a b : Sealing => a.nonce ≠ b.nonce := ⟨fun _ _ h => h.symm⟩
  have heq : e' = e := by
    by_contra hne
    exact hn.forall he' he hne hnonce
  rw [hp, heq]

theorem answer_sealed (h : w.Inv) (hn : w.sealed.Pairwise fun a b => a.nonce ≠ b.nonce)
    {e : Sealing} (he : e ∈ w.sealed) (hnew : e.counter ∉ w.openedOn e.channel)
    (hfirst : w.openedOn e.channel = [] → e.counter < 2 ^ 32)
    (hup : w.openedOn e.channel ≠ [] → ∃ t ∈ w.openedOn e.channel, e.counter < t + 2 ^ 31)
    (hwin : ∀ t ∈ w.openedOn e.channel,
      t < e.counter ∨ t - e.counter < ChannelState.widthOf e.channel) :
    (w.answer e.channel e.record).1 = .ok (e.header, e.payload) := by
  have hwidth : ChannelState.widthOf e.channel ≤ 64 := by cases e.channel <;> decide
  have hbelow : ∀ t ∈ w.openedOn e.channel, t < 2 ^ 64 := by
    intro t ht
    obtain ⟨c, hc, rfl⟩ := List.mem_map.mp ht
    obtain ⟨hc, hs⟩ := List.mem_filter.mp hc
    simp only [Bool.and_eq_true, OpenCall.succeeded] at hs
    cases ho : c.outcome with
    | error err => simp [ho, Except.isOk, Except.toBool] at hs
    | ok hp =>
      obtain ⟨e', he', -, hctr, -⟩ := h.authentic c hc hp.1 hp.2 ho
      exact hctr ▸ h.below e' he'
  have hadm : ReplayWindow.Admits (ChannelState.widthOf e.channel)
      {s | s ∈ w.openedOn e.channel} e.counter := by
    by_cases hall : ∀ t ∈ w.openedOn e.channel, t < e.counter
    · exact Or.inl hall
    · push Not at hall
      obtain ⟨t₀, ht₀, hle⟩ := hall
      refine Or.inr ⟨hnew, fun t ht => ?_⟩
      have hpos := hwin t₀ ht₀
      rcases hwin t ht with hlt | hlt
      · omega
      · omega
  have hsplit := MsgHeader.split_toBytes (h.header e he).1 e.ciphertext
  have hlen : ¬ e.record.length < headerLen + aeadTagLen := by
    have := h.tagged e he
    simp only [Sealing.record, List.length_append, MsgHeader.length_toBytes]
    omega
  have hempty : ({s | s ∈ w.openedOn e.channel} : Set ℕ) = ∅ → e.counter < 2 ^ 32 := by
    intro hem
    refine hfirst (List.eq_nil_iff_forall_not_mem.mpr fun t ht => ?_)
    have : t ∈ ({s | s ∈ w.openedOn e.channel} : Set ℕ) := ht
    rw [hem] at this
    exact this
  have hdown : ∀ t ∈ w.openedOn e.channel, t < e.counter + 2 ^ 31 := by
    intro t ht
    rcases hwin t ht with hlt | hlt <;> omega
  obtain ⟨st, hopen⟩ : ∃ st, (w.opener.channels e.channel).openWith e.channel
      (UInt32.ofNat e.counter) (fun seq => idealDecrypt w.sealed (nonceFor e.channel seq)
        e.header.toBytes e.ciphertext) = (.ok e.payload, st) := by
    obtain ⟨st, hst, -⟩ := ChannelState.openWith_eq_ok e.channel
      (fun seq => idealDecrypt w.sealed (nonceFor e.channel seq) e.header.toBytes e.ciphertext)
      (h.opener e.channel) hbelow (h.below e he) hempty
      (fun ⟨t, ht⟩ => hup (List.ne_nil_of_mem ht)) hdown hadm (idealDecrypt_sealed hn he)
    exact ⟨st, hst⟩
  rw [answer, RecordOpener.openRecord, if_neg hlen, Sealing.record, hsplit]
  simp only [(h.header e he).2, hopen]
  rfl

end RecordRun

open RecordRun in
/-- **The record layer is exactly-once and authentic**, in every state of every
run that seals fewer than `2 ^ 64` records per channel. -/
theorem recordRun_exactlyOnce (cipher : Cipher) (events : List RecordEvent)
    (hfew : ∀ ch, (run (step cipher) init events).sealedOn ch < 2 ^ 64) :
    ExactlyOnce cipher (run (step cipher) init events) := by
  have h := inv_run cipher events
  have hn := nonces_of_ordered h hfew
  exact
    { nonces := hn
      authentic := h.authentic
      once := h.once
      refused := by
        intro channel record err herr later
        refine run_calls_congr cipher ?_ ?_ ?_ later
        · rfl
        · exact answer_error herr
        · rfl
      accepted := by
        intro e he hnew hfirst hup hwin
        exact answer_sealed h hn he hnew hfirst hup hwin }

/-- A cipher for concrete runs: the payload followed by an empty tag. -/
def Cipher.plain : Cipher where
  encrypt _ _ msg := msg ++ List.replicate aeadTagLen 0
  length_encrypt := by simp

/-- Seal `n` empty video frames. -/
def sealFrames (n : ℕ) : List RecordEvent :=
  List.replicate n (.sealCall .video .videoFrame MsgFlags.none 0 0 [])

def frameRecord (counter : ℕ) : List UInt8 :=
  (MsgHeader.new .videoFrame (UInt32.ofNat counter) 0).toBytes ++ List.replicate aeadTagLen 0

open RecordRun in
theorem recordRun_exactlyOnce_two_frames :
    (∀ ch, (run (step .plain) init (sealFrames 2 ++ [.openCall .video (frameRecord 1)])).sealedOn ch
      < 2 ^ 64) ∧
    ExactlyOnce .plain (run (step .plain) init (sealFrames 2 ++ [.openCall .video (frameRecord 1)])) :=
  have h : ∀ ch, (run (step .plain) init
      (sealFrames 2 ++ [.openCall .video (frameRecord 1)])).sealedOn ch < 2 ^ 64 := by
    intro ch
    cases ch <;> decide
  ⟨h, recordRun_exactlyOnce .plain _ h⟩

open RecordRun in
/-- Nearness is not the number of newer records opened: after 65 frames were
sealed and only the newest was opened, the oldest has one newer record opened
and is 64 below the highest counter, and is refused as a replay. -/
theorem overtaken_record_refused :
    let w := run (step .plain) init (sealFrames 65 ++ [.openCall .video (frameRecord 64)])
    ∃ e ∈ w.sealed, e.counter ∉ w.openedOn e.channel ∧
      ((w.openedOn e.channel).filter (e.counter < ·)).length < 64 ∧
      (∀ t ∈ w.openedOn e.channel, t - e.counter < 2 ^ 31 ∧ e.counter - t < 2 ^ 31) ∧
      (w.answer e.channel e.record).1 = .error (.replay "video" 0) := by
  decide +kernel

end NebulaDesk
