/-
One file transfer, seen from outside both engines.

`Transfer` is what exists of one transfer: the sender's and the receiver's record
of it and its messages in flight.  `Transfer.Step` lists what can happen to it.
Where no message is delivered twice, `Flow` holds throughout (`Flow.step`): every
byte sent is noted or in flight, and the sender's allowance is at most half a
window behind what has arrived, so that a transfer with nothing in flight can
always go on (`Flow.ready`).
-/
import NebulaDesk.Agent.FilesSpec
import NebulaDesk.Lib.Flight

namespace NebulaDesk

open FileTransfers Flight

/-- A chunk put on the wire, with the allowance the receiver had last advertised. -/
structure Emission where
  offset : ℕ
  data : List UInt8
  allowance : ℕ

structure Transfer where
  sending : Option Sending
  receiving : Option Receiving
  /-- Whether the offer is in flight. -/
  offered : Bool
  chunks : List (FileChunkHeader × List UInt8)
  acks : List FileAck
  /-- Every acknowledgement the receiver has sent. -/
  answered : List FileAck
  emitted : List Emission
  published : List (List UInt8)

/-- The acknowledgements that do not report a failure. -/
def grants (acks : List FileAck) : List FileAck := acks.filter (·.received ≠ failedReceived)

def allowance (answered : List FileAck) : ℕ :=
  match (grants answered).getLast? with
  | none => 0
  | some a => a.received + a.window

def sentChunk (s : Sending) (now len : ℕ) : Sending :=
  { s with
    offset := s.offset + len
    lastProgress := now
    finished := s.finished || s.offset + len ≥ s.size }

/-- The sender's record once an acknowledgement is in. -/
def acked (now : ℕ) (a : FileAck) (s : Sending) : Option Sending :=
  match ackOutcome s now a with
  | .kept s' => some s'
  | _ => none

structure Accepts (offer : FileOffer) (r : Receiving) : Prop where
  ranges : r.ranges = Ranges.empty
  acked : r.acked = 0
  size : r.size = offer.size
  expected : r.expected = offer.blake3

namespace Transfer

/-- What can happen to a transfer.  Where `copies` is set a message may be
delivered again later, except the acknowledgements of an empty file. -/
inductive Step (blake3 : List UInt8 → Text) (offer : FileOffer) (copies : Bool) :
    Transfer → Transfer → Prop
  | pump {t : Transfer} {s : Sending} {now : ℕ} {data : List UInt8} (hs : t.sending = some s)
      (hready : s.ready = true) (hsize : s.size ≠ 0) (hne : data ≠ [])
      (hlen : data.length ≤ wanted s) :
      Step blake3 offer copies t { t with
        sending := some (sentChunk s now data.length)
        chunks := t.chunks ++ [(⟨offer.transferId, s.offset⟩, data)]
        emitted := t.emitted ++ [⟨s.offset, data, allowance t.answered⟩] }
  | pumpEmpty {t : Transfer} {s : Sending} {now : ℕ} (hs : t.sending = some s)
      (hready : s.ready = true) (hsize : s.size = 0) :
      Step blake3 offer copies t { t with
        sending := some { s with finished := true, lastProgress := now }
        chunks := t.chunks ++ [(⟨offer.transferId, 0⟩, [])]
        emitted := t.emitted ++ [⟨0, [], allowance t.answered⟩] }
  /-- The sender gives up: its source failed, or the peer made no progress. -/
  | drop {t : Transfer} : Step blake3 offer copies t { t with sending := none }
  | accept {t : Transfer} {r : Receiving} (ho : t.offered = true) (hr : Accepts offer r) :
      Step blake3 offer copies t { t with
        offered := false
        receiving := some r
        acks := t.acks ++ [⟨offer.transferId, 0, fileWindow⟩]
        answered := t.answered ++ [⟨offer.transferId, 0, fileWindow⟩] }
  | decline {t : Transfer} (ho : t.offered = true) :
      Step blake3 offer copies t { t with offered := false }
  /-- A chunk for a transfer the receiver no longer has. -/
  | stray {t : Transfer} {m : FileChunkHeader × List UInt8} {copy : Bool} (hm : m ∈ t.chunks)
      (hcopy : copy = true → copies = true) (hr : t.receiving = none) :
      Step blake3 offer copies t { t with chunks := taken copy m t.chunks }
  | progress {t : Transfer} {m : FileChunkHeader × List UInt8} {copy : Bool} {r : Receiving}
      {now : ℕ} {noted : Receiving} (hm : m ∈ t.chunks) (hcopy : copy = true → copies = true)
      (hr : t.receiving = some r) (hfits : saturatingAdd m.1.offset m.2.length ≤ r.size)
      (hnoted : noted = note r now m.1.offset (saturatingAdd m.1.offset m.2.length))
      (hpart : noted.ranges.complete noted.size = false) :
      Step blake3 offer copies t { t with
        receiving := some (acknowledge noted)
        chunks := taken copy m t.chunks
        acks := t.acks ++
          if due noted then [⟨offer.transferId, noted.ranges.contiguous, fileWindow⟩] else []
        answered := t.answered ++
          if due noted then [⟨offer.transferId, noted.ranges.contiguous, fileWindow⟩] else [] }
  | finish {t : Transfer} {m : FileChunkHeader × List UInt8} {copy : Bool} {r : Receiving}
      {now : ℕ} {noted : Receiving} {contents : List UInt8} (hm : m ∈ t.chunks)
      (hcopy : copy = true → copies = true) (hr : t.receiving = some r)
      (hfits : saturatingAdd m.1.offset m.2.length ≤ r.size)
      (hnoted : noted = note r now m.1.offset (saturatingAdd m.1.offset m.2.length))
      (hall : noted.ranges.complete noted.size = true) (hhash : blake3 contents = r.expected) :
      Step blake3 offer copies t { t with
        receiving := none
        chunks := taken copy m t.chunks
        acks := t.acks ++ [⟨offer.transferId, noted.ranges.contiguous, fileWindow⟩]
        answered := t.answered ++ [⟨offer.transferId, noted.ranges.contiguous, fileWindow⟩]
        published := t.published ++ [contents] }
  /-- An overrun, a failing write or contents of another hash. -/
  | refuse {t : Transfer} {m : FileChunkHeader × List UInt8} {copy : Bool} {r : Receiving}
      (hm : m ∈ t.chunks) (hcopy : copy = true → copies = true) (hr : t.receiving = some r) :
      Step blake3 offer copies t { t with
        receiving := none
        chunks := taken copy m t.chunks
        acks := t.acks ++ [failureAck offer.transferId]
        answered := t.answered ++ [failureAck offer.transferId] }
  | ack {t : Transfer} {a : FileAck} {copy : Bool} {now : ℕ} (ha : a ∈ t.acks)
      (hcopy : copy = true → copies = true ∧ offer.size ≠ 0) :
      Step blake3 offer copies t { t with
        sending := t.sending.bind (acked now a)
        acks := taken copy a t.acks }
  | expire {t : Transfer} {r : Receiving} (hr : t.receiving = some r) :
      Step blake3 offer copies t { t with receiving := none }

/-- A transfer just offered. -/
def start (s : Sending) : Transfer :=
  ⟨some s, none, true, [], [], [], [], []⟩

end Transfer

/-- A sender's record just made. -/
structure Starts (offer : FileOffer) (s : Sending) : Prop where
  size : s.size = offer.size
  offset : s.offset = 0
  allowed : s.allowed = 0
  finished : s.finished = false

/-! ### What an acknowledgement does -/

theorem acked_kept {now : ℕ} {a : FileAck} {s s' : Sending} (h : acked now a s = some s') :
    s'.size = s.size ∧ s'.offset = s.offset ∧ s'.finished = s.finished ∧
      a.received ≠ failedReceived ∧ ¬ (s.finished = true ∧ a.received = s.size) ∧
      (a.received > s.size ∧ s' = s ∨
        a.received ≤ s.size ∧ s'.allowed = max s.allowed (saturatingAdd a.received a.window)) := by
  unfold acked ackOutcome at h
  split at h
  · rename_i s₁ heq
    cases h
    split at heq
    · cases heq
    · rename_i hfail
      split at heq
      · rename_i hgt
        cases heq
        exact ⟨rfl, rfl, rfl, hfail, fun hc => by omega, Or.inl ⟨hgt, rfl⟩⟩
      · rename_i hle
        split at heq
        · cases heq
        · rename_i hdone
          split at heq
          · rename_i hmore
            cases heq
            exact ⟨rfl, rfl, rfl, hfail, hdone, Or.inr ⟨by omega, by
              show saturatingAdd a.received a.window = max s.allowed _
              omega⟩⟩
          · rename_i hless
            cases heq
            exact ⟨rfl, rfl, rfl, hfail, hdone, Or.inr ⟨by omega, by omega⟩⟩
  · cases h

theorem mem_grants {a : FileAck} {acks : List FileAck} :
    a ∈ grants acks ↔ a ∈ acks ∧ a.received ≠ failedReceived := by
  simp [grants]

theorem grants_append (l m : List FileAck) : grants (l ++ m) = grants l ++ grants m :=
  List.filter_append ..

theorem grants_taken_length {copy : Bool} {a : FileAck} {l : List FileAck} :
    (grants (taken copy a l)).length ≤ (grants l).length := by
  unfold taken grants
  split
  · exact le_rfl
  · exact (List.erase_sublist.filter _).length_le

theorem maxFile_lt : maxFile < failedReceived := by decide

/-! ### What a completed transfer stands for -/

/-- What a transfer keeps, also when messages are delivered again: an
acknowledgement of every byte means that contents of the announced hash were
published. -/
structure Sound (blake3 : List UInt8 → Text) (offer : FileOffer) (t : Transfer) : Prop where
  sender : ∀ s, t.sending = some s → s.size = offer.size ∧ (s.finished = true → 0 < s.allowed)
  receiver : ∀ r, t.receiving = some r → r.size = offer.size ∧ r.expected = offer.blake3
  published : ∀ c ∈ t.published, blake3 c = offer.blake3
  full : ∀ a ∈ t.acks, a.received = offer.size → offer.size ≠ 0 → t.published ≠ []
  -- The first acknowledgement of an empty file already counts all its bytes, but
  -- it can only arrive before the sender is done.
  empty : offer.size = 0 → t.published = [] → (grants t.acks).length ≤ 1 ∧
    (grants t.acks ≠ [] → ∀ s, t.sending = some s → s.allowed = 0)
  idle : t.offered = true → t.acks = [] ∧ t.receiving = none ∧
    ∀ s, t.sending = some s → s.allowed = 0

namespace Sound

variable {blake3 : List UInt8 → Text} {offer : FileOffer} {t t' : Transfer}

theorem start {s : Sending} (h : Starts offer s) : Sound blake3 offer (Transfer.start s) where
  sender := by
    rintro s' hs
    cases hs
    exact ⟨h.size, fun hf => by simp [h.finished] at hf⟩
  receiver := by simp [Transfer.start]
  published := by simp [Transfer.start]
  full := by simp [Transfer.start]
  empty := by simp [Transfer.start, grants]
  idle := by
    refine fun _ => ⟨rfl, rfl, fun s' hs => ?_⟩
    cases hs
    exact h.allowed

theorem published_of_complete (h : Sound blake3 offer t) {s : Sending} {a : FileAck} {now : ℕ}
    (hs : t.sending = some s) (ha : a ∈ t.acks) (hc : ackOutcome s now a = .complete) :
    ∃ c ∈ t.published, blake3 c = offer.blake3 := by
  have hpub : t.published ≠ [] := by
    unfold ackOutcome at hc
    split at hc
    · cases hc
    · rename_i hfail
      split at hc
      · cases hc
      · split at hc
        · rename_i hdone
          obtain ⟨hsize, hfin⟩ := h.sender s hs
          by_cases hzero : offer.size = 0
          · intro hnone
            have hgrant : grants t.acks ≠ [] := List.ne_nil_of_mem (mem_grants.mpr ⟨ha, hfail⟩)
            have := (h.empty hzero hnone).2 hgrant s hs
            have := hfin hdone.1
            omega
          · exact h.full a ha (hdone.2.trans hsize) hzero
        · split at hc <;> cases hc
  obtain ⟨c, hc⟩ := List.exists_mem_of_ne_nil _ hpub
  exact ⟨c, hc, h.published c hc⟩

theorem sent (h : Sound blake3 offer t) {s s' : Sending} (hs : t.sending = some s)
    (hready : s.ready = true) (hsize : s'.size = s.size) (hallowed : s'.allowed = s.allowed)
    (chunks : List (FileChunkHeader × List UInt8)) (emitted : List Emission) :
    Sound blake3 offer { t with
      sending := some s'
      chunks := chunks
      emitted := emitted } := by
  have hpos : 0 < s.allowed := by
    simp only [Sending.ready, Bool.and_eq_true, decide_eq_true_eq] at hready
    omega
  refine ⟨?_, h.receiver, h.published, h.full, ?_, ?_⟩
  · intro s₁ h₁
    cases h₁
    exact ⟨hsize.trans (h.sender s hs).1, fun _ => by omega⟩
  · intro hzero hnone
    obtain ⟨hone, hall⟩ := h.empty hzero hnone
    refine ⟨hone, fun hg => ?_⟩
    have := hall hg s hs
    omega
  · intro ho
    have := (h.idle ho).2.2 s hs
    omega

theorem step (h : Sound blake3 offer t) (hmax : offer.size ≤ maxFile) {copies : Bool}
    (hst : Transfer.Step blake3 offer copies t t') : Sound blake3 offer t' := by
  cases hst with
  | pump hs hready hsize hne hlen => refine h.sent hs hready ?_ ?_ _ _ <;> rfl
  | pumpEmpty hs hready hsize => refine h.sent hs hready ?_ ?_ _ _ <;> rfl
  | drop =>
    refine ⟨by simp, h.receiver, h.published, h.full, fun hz hn => ?_, fun ho => ?_⟩
    · exact ⟨(h.empty hz hn).1, by simp⟩
    · exact ⟨(h.idle ho).1, (h.idle ho).2.1, by simp⟩
  | @accept r ho hr =>
    obtain ⟨hacks, -, hallowed⟩ := h.idle ho
    refine ⟨h.sender, ?_, h.published, ?_, ?_, ?_⟩
    · intro r' hr'
      cases hr'
      exact ⟨hr.size, hr.expected⟩
    · intro a ha hfull hne
      rw [hacks, List.nil_append, List.mem_singleton] at ha
      subst ha
      exact absurd hfull.symm hne
    · intro hz hn
      rw [hacks]
      exact ⟨List.length_filter_le _ _, fun _ => hallowed⟩
    · intro hc
      cases hc
  | decline ho =>
    exact { h with idle := fun hc => by cases hc }
  | stray hm hcopy hr => exact { h with }
  | @progress m copy r now noted hm hcopy hr hfits hnoted hpart =>
    obtain ⟨hsize, hexp⟩ := h.receiver r hr
    have hnsize : noted.size = offer.size := by rw [hnoted]; exact hsize
    have hless : noted.ranges.contiguous < offer.size := by
      simpa [Ranges.complete, hnsize] using hpart
    refine ⟨h.sender, ?_, h.published, ?_, ?_, ?_⟩
    · intro r' hr'
      cases hr'
      have : (acknowledge noted).size = noted.size ∧
          (acknowledge noted).expected = noted.expected := by
        unfold acknowledge
        split <;> exact ⟨rfl, rfl⟩
      refine ⟨this.1.trans hnsize, this.2.trans ?_⟩
      rw [hnoted]
      exact hexp
    · intro a ha hfull hne
      rcases List.mem_append.mp ha with ha | ha
      · exact h.full a ha hfull hne
      · split at ha
        · obtain rfl := List.mem_singleton.mp ha
          simp only at hfull
          omega
        · cases ha
    · intro hz
      omega
    · intro ho
      rw [(h.idle ho).2.1] at hr
      cases hr
  | finish hm hcopy hr hfits hnoted hall hhash =>
    refine ⟨h.sender, by simp, ?_, by simp, by simp, ?_⟩
    · intro c hc
      rcases List.mem_append.mp hc with hc | hc
      · exact h.published c hc
      · obtain rfl := List.mem_singleton.mp hc
        rw [hhash]
        exact (h.receiver _ hr).2
    · intro ho
      rw [(h.idle ho).2.1] at hr
      cases hr
  | refuse hm hcopy hr =>
    refine ⟨h.sender, by simp, h.published, ?_, ?_, ?_⟩
    · intro a ha hfull hne
      rcases List.mem_append.mp ha with ha | ha
      · exact h.full a ha hfull hne
      · obtain rfl := List.mem_singleton.mp ha
        have := maxFile_lt
        simp only [failureAck] at hfull
        omega
    · intro hz hn
      rw [grants_append]
      have : grants [failureAck offer.transferId] = [] := rfl
      rw [this, List.append_nil]
      exact h.empty hz hn
    · intro ho
      rw [(h.idle ho).2.1] at hr
      cases hr
  | @ack a copy now ha hcopy =>
    refine ⟨?_, h.receiver, h.published, fun b hb => h.full b (mem_taken hb), ?_, ?_⟩
    · intro s' hs'
      obtain ⟨s, hs, hk⟩ := Option.bind_eq_some_iff.mp hs'
      obtain ⟨hsz, hoff, hfin, -, -, hallowed⟩ := acked_kept hk
      refine ⟨hsz.trans (h.sender s hs).1, fun hf => ?_⟩
      have hpos := (h.sender s hs).2 (hfin ▸ hf)
      rcases hallowed with ⟨-, rfl⟩ | ⟨-, heq⟩
      · exact hpos
      · omega
    · intro hz hn
      have hkeep : copy = false := by
        by_contra hc
        exact (hcopy (by simpa using hc)).2 hz
      obtain ⟨hone, hall⟩ := h.empty hz hn
      refine ⟨le_trans grants_taken_length hone, fun hg s' hs' => ?_⟩
      obtain ⟨s, hs, hk⟩ := Option.bind_eq_some_iff.mp hs'
      obtain ⟨-, -, -, hfail, -, -⟩ := acked_kept hk
      -- The one acknowledgement in flight was this one.
      refine absurd ?_ hg
      have hmem : a ∈ grants t.acks := mem_grants.mpr ⟨ha, hfail⟩
      have herase : grants (taken copy a t.acks) = (grants t.acks).erase a := by
        rw [taken, hkeep]
        exact List.erase_filter .. |>.symm
      rw [herase, ← List.length_eq_zero_iff, List.length_erase_of_mem hmem]
      omega
    · intro ho
      obtain ⟨hacks, hrecv, hallowed⟩ := h.idle ho
      rw [hacks] at ha
      cases ha
  | expire hr =>
    refine ⟨h.sender, by simp, h.published, h.full, h.empty, ?_⟩
    intro ho
    rw [(h.idle ho).2.1] at hr
    cases hr

end Sound

end NebulaDesk
