/-
File transfer over a plain session.

The messages of two file engines go over the File channel: each is sealed under
the next counter of its direction and put on a stream of its own, the streams
complete in any order, and the opener's replay window decides whether a record
is opened or ends the session (`read_message_stream` of
`ndp-transport/src/session.rs`, which forgives a replay on the Video channel
only).  A session goes on exactly as long as no record arrives after one sealed
64 or more records later (`session_goes_on_iff`); two honest engines do not keep
to that (`delayed_offer_ends_session`).
-/
import NebulaDesk.Agent.Integrity
import NebulaDesk.Crypto.Record

namespace NebulaDesk

open FileTransfers Runs

structure FileSession where
  peer : Bool → FileTransfers × World
  /-- How many File records each has sealed. -/
  sealed : Bool → ℕ
  /-- Streams each has opened that are not complete, with the record's counter. -/
  wire : Bool → List (ℕ × FileAction)
  /-- The replay state of each for the records of the other. -/
  opener : Bool → ChannelState
  /-- Messages each has opened and not yet handed to its engine. -/
  inbox : Bool → List FileAction
  /-- The counters of the records that have arrived at each, in order. -/
  arrived : Bool → List ℕ
  /-- The error that ended the session. -/
  ended : Bool → Option CryptoError

inductive SessionEvent
  /-- A call on one engine. -/
  | call (e : Bool) (op : FileOp)
  /-- A stream of the other machine completes. -/
  | arrive (e : Bool) (counter : ℕ)

namespace FileSession

/-- Seal a message and open a stream for it. -/
def send (s : FileSession) (e : Bool) : Option FileAction → FileSession
  | none => s
  | some m =>
    { s with
      sealed := Function.update s.sealed e (s.sealed e + 1)
      wire := Function.update s.wire e (s.wire e ++ [(s.sealed e % 2 ^ 64, m)]) }

/-- What the engine `e` does with `op`; the message `op` takes in leaves the inbox. -/
def call (p : Bool → Platform) (s : FileSession) (e : Bool) (op : FileOp) : FileSession :=
  let r := FileTransfers.apply (p e) (s.peer e) op
  ({ s with
    peer := Function.update s.peer e r.2
    inbox := Function.update s.inbox e
      (match op.message with
        | some m => (s.inbox e).erase m
        | none => s.inbox e) } : FileSession).send e r.1

/-- Open a record, sealed under `counter`; only its own counter decrypts it. -/
def openRecord (s : FileSession) (e : Bool) (counter : ℕ) (m : FileAction) :
    Except CryptoError FileAction × ChannelState :=
  (s.opener e).openWith .file (UInt32.ofNat counter) fun seq =>
    if seq = counter then some m else none

/-- A record arrives: it is opened, or ends the session. -/
def arrive (s : FileSession) (e : Bool) (counter : ℕ) (m : FileAction) : FileSession :=
  let s' := { s with
    wire := Function.update s.wire (!e) ((s.wire !e).filter (·.1 ≠ counter))
    arrived := Function.update s.arrived e (s.arrived e ++ [counter])
    opener := Function.update s.opener e (s.openRecord e counter m).2 }
  match (s.openRecord e counter m).1 with
  | .ok opened => { s' with inbox := Function.update s.inbox e (s.inbox e ++ [opened]) }
  | .error error => { s' with ended := Function.update s.ended e (some error) }

/-- One event of a session that has not ended; `streams` bounds the streams open
at once in each direction. -/
def step (p : Bool → Platform) (streams : ℕ) (s : FileSession) : SessionEvent → Option FileSession
  | .call e op =>
    if (s.ended false).isSome || (s.ended true).isSome then none
    else if !(op.message.all fun m => (s.inbox e).contains m) then none
    else if (s.wire e).length ≥ streams then none
    else some (s.call p e op)
  | .arrive e counter =>
    if (s.ended false).isSome || (s.ended true).isSome then none
    else ((s.wire !e).find? (·.1 = counter)).map fun x => s.arrive e counter x.2

def start (env : Bool → Env) (fs : Bool → FileSystem) (folder : Bool → PathBuf)
    (permitted : Bool → Bool) : FileSession where
  peer e := (FileTransfers.new (folder e) (permitted e), World.start (env e) (fs e))
  sealed _ := 0
  wire _ := []
  opener _ := ChannelState.new .file
  inbox _ := []
  arrived _ := []
  ended _ := none

end FileSession

/-- No record that arrived before was sealed 64 or more records later. -/
def NotOvertaken (before : List ℕ) (counter : ℕ) : Prop :=
  ∀ other ∈ before, other < counter + 64

/-- What holds of the records that `e` receives. -/
structure Carried (streams : ℕ) (s : FileSession) (e : Bool) : Prop where
  counters : ∀ c, c < s.sealed (!e) ↔ c ∈ (s.wire !e).map Prod.fst ∨ c ∈ s.arrived e
  nodup : ((s.wire !e).map Prod.fst).Nodup
  apart : ∀ c ∈ (s.wire !e).map Prod.fst, c ∉ s.arrived e
  room : (s.wire !e).length ≤ streams
  holds : s.ended e = none → (s.opener e).Holds 64 {c | c ∈ s.arrived e}
  goes_on : s.ended e = none ↔ Each NotOvertaken (s.arrived e)

theorem sub_le_length {l : List ℕ} {a b : ℕ} (h : ∀ c, a ≤ c → c < b → c ∈ l) :
    b - a ≤ l.length := by
  have hsub : Finset.Ico a b ⊆ l.toFinset := by
    intro c hc
    rw [Finset.mem_Ico] at hc
    exact List.mem_toFinset.mpr (h c hc.1 hc.2)
  calc b - a = (Finset.Ico a b).card := (Nat.card_Ico a b).symm
    _ ≤ l.toFinset.card := Finset.card_le_card hsub
    _ ≤ l.length := List.toFinset_card_le l

namespace Carried

variable {streams : ℕ} {s : FileSession} {e : Bool} {counter : ℕ} {m : FileAction}

/-- **A record opens exactly if it was not overtaken.** -/
theorem open_iff (h : Carried streams s e) (hstreams : streams < 2 ^ 31)
    (hfew : s.sealed (!e) ≤ 2 ^ 64) (hon : s.ended e = none)
    (hw : counter ∈ (s.wire !e).map Prod.fst) :
    (NotOvertaken (s.arrived e) counter ∧ ∃ st', s.openRecord e counter m = (.ok m, st') ∧
      st'.Holds 64 {c | c ∈ s.arrived e ++ [counter]}) ∨
    (¬ NotOvertaken (s.arrived e) counter ∧
      ∃ error, s.openRecord e counter m = (.error error, s.opener e)) := by
  have hh := h.holds hon
  have hnew := h.apart counter hw
  have hlt : ∀ c, c ∈ (s.wire !e).map Prod.fst ∨ c ∈ s.arrived e → c < 2 ^ 64 := fun c hc =>
    lt_of_lt_of_le ((h.counters c).mpr hc) hfew
  -- What lies between the newest record opened and this one is still under way.
  have hgap : ∀ low, (∀ c ∈ s.arrived e, c < low) → counter + 1 - low ≤ streams := by
    intro low hlow
    refine le_trans (sub_le_length (l := (s.wire !e).map Prod.fst) fun c hc hc' => ?_) ?_
    · have hcs : c < s.sealed (!e) := lt_of_lt_of_le hc' ((h.counters counter).mpr (Or.inl hw))
      rcases (h.counters c).mp hcs with hin | hin
      · exact hin
      · have := hlow c hin
        omega
    · rw [List.length_map]
      exact h.room
  by_cases hno : NotOvertaken (s.arrived e) counter
  · left
    refine ⟨hno, ?_⟩
    have hfirst : {c | c ∈ s.arrived e} = ∅ → counter < 2 ^ 32 := by
      intro hempty
      have := hgap 0 fun c hc => absurd (show c ∈ {c | c ∈ s.arrived e} from hc) (by simp [hempty])
      omega
    have hup : {c | c ∈ s.arrived e}.Nonempty → ∃ t ∈ {c | c ∈ s.arrived e},
        counter < t + 2 ^ 31 := by
      rintro ⟨t₀, ht₀⟩
      obtain ⟨t, ht, hmax⟩ := (s.arrived e).toFinset.exists_max_image id
        ⟨t₀, List.mem_toFinset.mpr ht₀⟩
      refine ⟨t, List.mem_toFinset.mp ht, ?_⟩
      have := hgap (t + 1) fun c hc => Nat.lt_succ_of_le (hmax c (List.mem_toFinset.mpr hc))
      omega
    have hdown : ∀ t ∈ {c | c ∈ s.arrived e}, t < counter + 2 ^ 31 := by
      intro t ht
      have := hno t ht
      omega
    have hadm : ReplayWindow.Admits 64 {c | c ∈ s.arrived e} counter := by
      right
      refine ⟨hnew, fun t ht => ?_⟩
      have := hno t ht
      omega
    obtain ⟨st', hopen, hst'⟩ := ChannelState.openWith_eq_ok .file
      (fun seq => if seq = counter then some m else none) hh (fun t ht => hlt t (Or.inr ht))
      (hlt counter (Or.inl hw)) hfirst hup hdown hadm (if_pos rfl)
    refine ⟨st', hopen, ?_⟩
    have hset : {c | c ∈ s.arrived e ++ [counter]} = insert counter {c | c ∈ s.arrived e} := by
      ext c
      simp [or_comm]
    rw [hset]
    exact hst'
  · right
    refine ⟨hno, ?_⟩
    cases hopen : s.openRecord e counter m with
    | mk result st' =>
      cases result with
      | error error => exact ⟨error, by rw [ChannelState.openWith_error hopen]⟩
      | ok a =>
        exfalso
        obtain ⟨hdec, -, -⟩ := ChannelState.openWith_ok hh hopen
        have hexp : (s.opener e).expander.expand (UInt32.ofNat counter) = counter := by
          by_contra hc
          rw [if_neg hc] at hdec
          cases hdec
        have hadm := ChannelState.openWith_admits hh hopen
        rw [hexp] at hadm
        refine hno fun t ht => ?_
        rcases hadm with hall | ⟨-, hall⟩
        · have := hall t ht
          omega
        · have := hall t ht
          omega

/-- A record arrives at `e`. -/
theorem arrive (h : Carried streams s e) (hstreams : streams < 2 ^ 31)
    (hfew : s.sealed (!e) ≤ 2 ^ 64) (hon : s.ended e = none)
    (hw : counter ∈ (s.wire !e).map Prod.fst) (m : FileAction) :
    Carried streams (s.arrive e counter m) e := by
  have hwire : (s.arrive e counter m).wire (!e) = (s.wire !e).filter (·.1 ≠ counter) := by
    unfold FileSession.arrive
    split <;> simp
  have harrived : (s.arrive e counter m).arrived e = s.arrived e ++ [counter] := by
    unfold FileSession.arrive
    split <;> simp
  have hsealed : (s.arrive e counter m).sealed = s.sealed := by
    unfold FileSession.arrive
    split <;> rfl
  have hopener : (s.arrive e counter m).opener e = (s.openRecord e counter m).2 := by
    unfold FileSession.arrive
    split <;> simp
  have hmem : ∀ c, c ∈ ((s.wire !e).filter (·.1 ≠ counter)).map Prod.fst ↔
      c ∈ (s.wire !e).map Prod.fst ∧ c ≠ counter := by
    intro c
    simp only [List.mem_map, List.mem_filter, decide_eq_true_eq]
    constructor
    · rintro ⟨x, ⟨hx, hne⟩, rfl⟩
      exact ⟨⟨x, hx, rfl⟩, hne⟩
    · rintro ⟨⟨x, hx, rfl⟩, hne⟩
      exact ⟨x, ⟨hx, hne⟩, rfl⟩
  have hon_iff := h.goes_on.mp hon
  refine ⟨fun c => ?_, ?_, fun c hc => ?_, ?_, fun hon' => ?_, ?_⟩
  · rw [hwire, harrived, hsealed, h.counters, hmem, List.mem_append, List.mem_singleton]
    by_cases hc : c = counter
    · subst hc
      simp [hw]
    · simp [hc]
  · rw [hwire]
    exact h.nodup.sublist (List.filter_sublist.map _)
  · rw [hwire, hmem] at hc
    rw [harrived, List.mem_append, List.mem_singleton]
    rintro (hin | rfl)
    · exact h.apart c hc.1 hin
    · exact hc.2 rfl
  · rw [hwire]
    exact le_trans (List.length_filter_le _ _) h.room
  · rw [hopener, harrived]
    rcases h.open_iff hstreams hfew hon hw with ⟨-, st', hopen, hst'⟩ | ⟨-, error, hopen⟩
    · rw [hopen]
      exact hst'
    · unfold FileSession.arrive at hon'
      rw [hopen] at hon'
      simp at hon'
  · rw [harrived, each_concat_iff]
    rcases h.open_iff hstreams hfew hon hw with ⟨hno, st', hopen, -⟩ | ⟨hno, error, hopen⟩
    · refine iff_of_true ?_ ⟨hon_iff, hno⟩
      unfold FileSession.arrive
      rw [hopen]
      exact hon
    · refine iff_of_false ?_ fun hc => hno hc.2
      unfold FileSession.arrive
      rw [hopen]
      simp

theorem arrive_other (h : Carried streams s e) (m : FileAction) :
    Carried streams (s.arrive (!e) counter m) e := by
  unfold FileSession.arrive
  split
  · exact ⟨by simpa using h.counters, by simpa using h.nodup, by simpa using h.apart,
      by simpa using h.room, by simpa using h.holds, by simpa using h.goes_on⟩
  · exact ⟨by simpa using h.counters, by simpa using h.nodup, by simpa using h.apart,
      by simpa using h.room, by simpa using h.holds, by simpa using h.goes_on⟩

/-- A call by `e` itself. -/
theorem call_own (h : Carried streams s e) (p : Bool → Platform) (op : FileOp) :
    Carried streams (s.call p e op) e := by
  unfold FileSession.call FileSession.send
  dsimp only
  split
  · exact { h with }
  · exact ⟨by simpa using h.counters, by simpa using h.nodup, by simpa using h.apart,
      by simpa using h.room, h.holds, h.goes_on⟩

/-- A call by the other machine: it may seal one more record. -/
theorem call_other (h : Carried streams s e) (p : Bool → Platform) (op : FileOp)
    (hroom : (s.wire !e).length < streams) (hfew : (s.call p (!e) op).sealed (!e) ≤ 2 ^ 64) :
    Carried streams (s.call p (!e) op) e := by
  unfold FileSession.call FileSession.send at hfew ⊢
  dsimp only at hfew ⊢
  split
  · exact { h with }
  · rename_i m hm
    rw [hm] at hfew
    have hfew : s.sealed (!e) < 2 ^ 64 := by simpa using hfew
    have hnot : s.sealed (!e) ∉ (s.wire !e).map Prod.fst ∧ s.sealed (!e) ∉ s.arrived e := by
      constructor
      · exact fun hc => absurd ((h.counters _).mpr (Or.inl hc)) (lt_irrefl _)
      · exact fun hc => absurd ((h.counters _).mpr (Or.inr hc)) (lt_irrefl _)
    have hmod : s.sealed (!e) % 2 ^ 64 = s.sealed (!e) := Nat.mod_eq_of_lt hfew
    refine ⟨fun c => ?_, ?_, ?_, ?_, h.holds, h.goes_on⟩
    · simp only [Function.update_self, List.map_append, List.mem_append, List.map_cons,
        List.map_nil, List.mem_singleton, hmod]
      have := h.counters c
      constructor
      · intro hc
        by_cases heq : c = s.sealed (!e)
        · exact Or.inl (Or.inr heq)
        · rcases this.mp (by omega) with hin | hin
          · exact Or.inl (Or.inl hin)
          · exact Or.inr hin
      · rintro ((hin | rfl) | hin)
        · have := this.mpr (Or.inl hin)
          omega
        · omega
        · have := this.mpr (Or.inr hin)
          omega
    · simp only [Function.update_self, List.map_append, List.map_cons, List.map_nil, hmod]
      refine List.nodup_append.mpr ⟨h.nodup, List.nodup_singleton _, ?_⟩
      intro a ha b hb hab
      rw [List.mem_singleton] at hb
      subst hb hab
      exact hnot.1 ha
    · intro c hc
      simp only [Function.update_self, List.map_append, List.map_cons, List.map_nil,
        List.mem_append, List.mem_singleton, hmod] at hc
      rcases hc with hc | rfl
      · exact h.apart c hc
      · exact hnot.2
    · simp only [Function.update_self, List.length_append, List.length_singleton]
      omega

theorem start (streams : ℕ) (env : Bool → Env) (fs : Bool → FileSystem) (folder : Bool → PathBuf)
    (permitted : Bool → Bool) (e : Bool) :
    Carried streams (FileSession.start env fs folder permitted) e where
  counters c := by simp [FileSession.start]
  nodup := List.nodup_nil
  apart c hc := by cases hc
  room := Nat.zero_le _
  holds _ := by
    have := ChannelState.holds_new .file
    simpa [FileSession.start, ChannelState.widthOf] using this
  goes_on := iff_of_true rfl (each_nil _)

end Carried

/-! ### Runs -/

namespace FileSession

variable {p : Bool → Platform} {streams : ℕ} {s s' : FileSession}

theorem step_cases {event : SessionEvent} (h : s.step p streams event = some s') :
    (∀ e, s.ended e = none) ∧
      ((∃ e op, (s.wire e).length < streams ∧ s' = s.call p e op) ∨
        ∃ e counter m, counter ∈ (s.wire !e).map Prod.fst ∧ s' = s.arrive e counter m) := by
  have hon : ¬ ((s.ended false).isSome || (s.ended true).isSome) = true →
      ∀ e, s.ended e = none := by
    intro hno e
    simp only [Bool.or_eq_true, not_or, Option.not_isSome_iff_eq_none] at hno
    cases e
    · exact hno.1
    · exact hno.2
  cases event with
  | call e op =>
    simp only [step] at h
    split at h
    · cases h
    · rename_i hno
      split at h
      · cases h
      split at h
      · cases h
      · rename_i hroom
        exact ⟨hon hno, Or.inl ⟨e, op, by omega, (Option.some.inj h).symm⟩⟩
  | arrive e counter =>
    simp only [step] at h
    split at h
    · cases h
    · rename_i hno
      obtain ⟨x, hx, rfl⟩ := Option.map_eq_some_iff.mp h
      have hmem := List.mem_of_find?_eq_some hx
      have hcounter : x.1 = counter := by simpa using List.find?_some hx
      exact ⟨hon hno, Or.inr ⟨e, counter, x.2, List.mem_map.mpr ⟨x, hmem, hcounter⟩, rfl⟩⟩

theorem sealed_call (e d : Bool) (op : FileOp) : s.sealed d ≤ (s.call p e op).sealed d := by
  unfold call send
  dsimp only
  split
  · exact le_rfl
  · by_cases hd : d = e
    · subst hd
      simp
    · simp [Function.update_of_ne hd]

theorem sealed_arrive (e d : Bool) (counter : ℕ) (m : FileAction) :
    (s.arrive e counter m).sealed d = s.sealed d := by
  unfold arrive
  split <;> rfl

end FileSession

section Runs

variable {p : Bool → Platform} {env : Bool → Env} {fs : Bool → FileSystem}
  {folder : Bool → PathBuf} {permitted : Bool → Bool} {streams : ℕ} {s : FileSession}

theorem carried_of_reach (hstreams : streams < 2 ^ 31)
    (hr : Reach (FileSession.step p streams) (FileSession.start env fs folder permitted) s) :
    (∀ e, s.sealed e ≤ 2 ^ 64) → ∀ e, Carried streams s e := by
  refine hr.invariant (P := fun s => (∀ e, s.sealed e ≤ 2 ^ 64) → ∀ e, Carried streams s e)
    (fun _ e => Carried.start streams env fs folder permitted e) ?_
  intro s s' event ih hs hfew e
  obtain ⟨hon, ⟨d, op, hroom, rfl⟩ | ⟨d, counter, m, hw, rfl⟩⟩ := FileSession.step_cases hs
  · have h := ih (fun b => le_trans (FileSession.sealed_call d b op) (hfew b)) e
    by_cases hd : d = e
    · subst hd
      exact h.call_own p op
    · obtain rfl : d = !e := by cases d <;> cases e <;> simp_all
      exact h.call_other p op hroom (hfew _)
  · have hfew' : ∀ b, s.sealed b ≤ 2 ^ 64 := by
      intro b
      rw [← FileSession.sealed_arrive d b counter m]
      exact hfew b
    have h := ih hfew' e
    by_cases hd : d = e
    · subst hd
      exact h.arrive hstreams (hfew' _) (hon d) hw m
    · obtain rfl : d = !e := by cases d <;> cases e <;> simp_all
      exact h.arrive_other m

/-- **When a plain session goes on.**  However the streams of the File channel
complete, each end goes on exactly as long as no record has arrived there after
one sealed 64 or more records later. -/
theorem session_goes_on_iff (hstreams : streams < 2 ^ 31)
    (hr : Reach (FileSession.step p streams) (FileSession.start env fs folder permitted) s)
    (hfew : ∀ e, s.sealed e ≤ 2 ^ 64) (e : Bool) :
    s.ended e = none ↔ Each NotOvertaken (s.arrived e) :=
  (carried_of_reach hstreams hr hfew e).goes_on

end Runs

/-! ### Many small files -/

/-- The empty file with a number for its name. -/
def Source.numbered (i : ℕ) : Source :=
  ⟨"a", Nat.toDigits 10 i, 0, some (Nat.toDigits 10 i), .ok true, .ok (), .ok (true, 0, none),
    .ok [], .ok ()⟩

def FileOffer.numbered (i : ℕ) : FileOffer := ⟨i, Nat.toDigits 10 i, 0, [], none⟩

/-- The transfer of one empty file from start to end, after `k` others and with
one more record of the sender delayed. -/
def emptyFile (k : ℕ) : List SessionEvent :=
  [.call false (.send 0 (.numbered (k + 2))), .arrive true (2 * k + 1),
    .call true (.offer 0 (.numbered (k + 2))), .arrive false (2 * k),
    .call false (.ack 0 ⟨k + 2, 0, fileWindow⟩), .call false (.pump 0 (k + 2) []),
    .arrive true (2 * k + 2), .call true (.chunk 0 ⟨k + 2, 0⟩ []), .arrive false (2 * k + 1),
    .call false (.ack 0 ⟨k + 2, 0, fileWindow⟩)]

/-- One offer, then `n` empty files, then the offer arrives. -/
def delayedOffer (n : ℕ) : List SessionEvent :=
  .call false (.send 0 (.numbered 1)) :: (List.range n).flatMap emptyFile ++ [.arrive true 0]

def FileSession.sample : FileSession :=
  FileSession.start (fun _ => Env.sample fun _ => .quiet) (fun _ => .blank) (fun _ => .sample)
    fun _ => true

/-- An offer that only two empty files have overtaken. -/
theorem session_goes_on_iff_two_files :
    ∃ s, tryRun (FileSession.step (fun _ => .sample .posix true) 256) .sample (delayedOffer 2) =
        some s ∧ s.arrived true = [1, 2, 3, 4, 0] ∧
      (s.ended true = none ↔ Each NotOvertaken (s.arrived true)) := by
  have hrun : (tryRun (FileSession.step (fun _ => .sample .posix true) 256) .sample
      (delayedOffer 2)).any (fun s => s.arrived true = [1, 2, 3, 4, 0] ∧
        s.sealed false ≤ 2 ^ 64 ∧ s.sealed true ≤ 2 ^ 64) = true := by decide +kernel
  obtain ⟨s, hs, hc⟩ := (Option.any_eq_true _ _).mp hrun
  obtain ⟨harrived, hf, ht⟩ := of_decide_eq_true hc
  refine ⟨s, hs, harrived, session_goes_on_iff (by decide) (reach_of_tryRun .init hs) ?_ true⟩
  intro e
  cases e
  · exact hf
  · exact ht

/-- **A delayed offer ends the session.**  The stream of one offer is late while
32 empty files go over one after the other: 64 newer records of the sender have
been opened, and the offer is taken for a replay. -/
theorem delayed_offer_ends_session :
    (tryRun (FileSession.step (fun _ => .sample .posix true) 256) .sample (delayedOffer 32)).any
      (fun s => s.ended true = some (.replay "file" 0)) = true := by
  decide +kernel

end NebulaDesk
