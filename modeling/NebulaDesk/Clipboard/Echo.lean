/-
Two clipboard syncs do not echo.

Each clipboard change has a number, its `stamp`.  `Seen` is the invariant: what
came from the peer, and what was announced before, has the remembered digest.
So an announcement is always of a local change, and of no change twice.

Once local programs stop copying, `budget` pays for every message: an end has at
most one thing left to announce, an offer brings at most a request and a
request at most the data.
-/
import NebulaDesk.Clipboard.Exchange

namespace NebulaDesk

namespace Exchange

open ClipboardSync

variable {host : Host} {x x' : Exchange} {e : Bool}

/-! ### Every announcement is of a new local change -/

/-- What may be announced, given what was noted before. -/
def News (before : List Note) : Note → Prop
  | .offered e _ _ stamp foreign =>
    foreign = false ∧ ∀ o c foreign', .offered e o c stamp foreign' ∉ before
  | _ => True

/-- End `e` announced its change number `stamp`. -/
def Told (history : List Note) (e : Bool) (stamp : ℕ) : Prop :=
  ∃ o c foreign, .offered e o c stamp foreign ∈ history

structure Seen (host : Host) (history : List Note) (e : Bool) (s : ClipboardSync Desktop) :
    Prop where
  noFiles : s.clipboard.foreign = true → s.clipboard.files = none
  foreign : s.clipboard.foreign = true → s.clipboard.Familiar host s.known
  told : Told history e s.clipboard.counter → s.clipboard.Familiar host s.known
  past : ∀ stamp, Told history e stamp → stamp ≤ s.clipboard.counter

namespace Seen

variable {history : List Note} {s s' : ClipboardSync Desktop}

theorem under (h : Seen host history e s) (w : Weather) : Seen host history e (s.under w) :=
  { h with }

theorem later (h : Seen host history e s) (hlater : s.clipboard.Later s'.clipboard)
    (hknown : s'.known = s.known ∨ s'.clipboard.Familiar host s'.known) :
    Seen host history e s' := by
  have hcarry : s'.clipboard.contents = s.clipboard.contents →
      s'.clipboard.files = s.clipboard.files → s.clipboard.Familiar host s.known →
      s'.clipboard.Familiar host s'.known := by
    intro hc hf hfamiliar
    rcases hknown with hsame | hnew
    · intro c digest hfiles hcontents
      rw [hsame]
      exact hfamiliar c digest (hf.symm.trans hfiles) (hc.symm.trans hcontents)
    · exact hnew
  refine ⟨?_, ?_, ?_, ?_⟩
  · intro hforeign
    obtain ⟨hold, -, hf⟩ := hlater.foreign hforeign
    exact hf.trans (h.noFiles hold)
  · intro hforeign
    obtain ⟨hold, hc, hf⟩ := hlater.foreign hforeign
    exact hcarry hc hf (h.foreign hold)
  · intro htold
    have hle := h.past _ htold
    have hge := hlater.counter
    have heq : s'.clipboard.counter = s.clipboard.counter := by omega
    obtain ⟨hc, hf, -⟩ := hlater.same heq
    exact hcarry hc hf (h.told (heq ▸ htold))
  · intro stamp htold
    exact le_trans (h.past stamp htold) hlater.counter

theorem offers (h : Seen host history e s) {w : Weather} {a : Option ClipboardAction}
    {c : Contents} (hp : Polled host (s.under w) a s') (hc : Offers host (s.under w) c a s') :
    s'.clipboard.foreign = false ∧ ¬ Told history e s'.clipboard.counter ∧
      s'.clipboard.Familiar host s'.known := by
  have hfamiliar' := hc.familiar hp
  by_cases hfamiliar : s.clipboard.Familiar host s.known
  · obtain ⟨hlt, hforeign⟩ := hc.fresh hp.later hfamiliar h.noFiles
    refine ⟨hforeign, ?_, hfamiliar'⟩
    intro htold
    exact absurd (h.past _ htold) (Nat.not_le.mpr hlt)
  · refine ⟨?_, ?_, hfamiliar'⟩
    · by_contra hforeign
      exact hfamiliar (h.foreign (hp.later.foreign (by simpa using hforeign)).1)
    · intro htold
      have hge : s.clipboard.counter ≤ s'.clipboard.counter := hp.later.counter
      have heq : s'.clipboard.counter = s.clipboard.counter := by
        have := h.past _ htold
        omega
      exact hfamiliar (h.told (heq ▸ htold))

theorem announced (h : Seen host history e s) {w : Weather} {a : Option ClipboardAction}
    {c : Contents} (hp : Polled host (s.under w) a s') (hc : Offers host (s.under w) c a s')
    {n : Note} (hn : n = .offered e ⟨s.nextOffer, [c.format], c.bytes.length⟩ c
      s'.clipboard.counter s'.clipboard.foreign) :
    Seen host (history ++ [n]) e s' := by
  obtain ⟨hforeign, -, hfamiliar⟩ := h.offers hp hc
  refine ⟨?_, fun _ => hfamiliar, fun _ => hfamiliar, ?_⟩
  · intro hf
    rw [hforeign] at hf
    cases hf
  · rintro stamp ⟨o, c', foreign', hm⟩
    rcases List.mem_append.mp hm with hm | hm
    · have hle : stamp ≤ s.clipboard.counter := h.past stamp ⟨o, c', foreign', hm⟩
      exact le_trans hle hp.later.counter
    · rw [List.mem_singleton, hn] at hm
      cases hm
      exact le_rfl

theorem data (hkept : host.Keeps) (h : Seen host history e s) {w : Weather}
    {header : ClipboardDataHeader} {bytes : List UInt8} {r : Except String Unit}
    (ht : Taken host header bytes (s.under w) r s') : Seen host history e s' := by
  cases ht with
  | refused => exact h.under w
  | failed => exact (h.under w).later (Desktop.later_tick _) (.inl rfl)
  | written haccept _ _ =>
    have hfamiliar := written_familiar hkept haccept (s.under w).clipboard
    refine ⟨fun _ => rfl, fun _ => hfamiliar, fun _ => hfamiliar, ?_⟩
    intro stamp htold
    have hle : stamp ≤ (s.under w).clipboard.counter := h.past stamp htold
    have htick := (Desktop.later_tick (s.under w).clipboard).counter
    show stamp ≤ (s.under w).clipboard.tick.counter + 1
    omega

theorem copy (h : Seen host history e s) (x : LocalCopy) :
    Seen host history e { s with clipboard := s.clipboard.copy x } := by
  have hforeign : (s.clipboard.copy x).foreign = true →
      s.clipboard.foreign = true ∧ s.clipboard.contents = x.contents ∧
        s.clipboard.files = x.files := by
    intro hf
    simpa [Desktop.copy] using hf
  refine ⟨?_, ?_, ?_, ?_⟩
  · intro hf
    obtain ⟨hold, -, hfiles⟩ := hforeign hf
    exact hfiles.symm.trans (h.noFiles hold)
  · intro hf c digest hfiles hc
    obtain ⟨hold, hc', hfiles'⟩ := hforeign hf
    exact h.foreign hold c digest (hfiles'.trans hfiles) (hc'.trans hc)
  · intro htold
    exact absurd (h.past _ htold) (Nat.not_succ_le_self _)
  · intro stamp htold
    exact le_trans (h.past stamp htold) (Nat.le_succ _)

end Seen

variable {s : ClipboardSync Desktop} {history : List Note}

theorem Seen.note (h : Seen host history e s)
    {n : Option Note} (hn : ∀ o c stamp foreign, n ≠ some (.offered e o c stamp foreign)) :
    Seen host (history ++ n.toList) e s := by
  have hback : ∀ stamp, Told (history ++ n.toList) e stamp → Told history e stamp := by
    rintro stamp ⟨o, c, foreign, hm⟩
    rcases List.mem_append.mp hm with hm | hm
    · exact ⟨o, c, foreign, hm⟩
    · exact absurd (Option.mem_toList.mp hm) (hn o c stamp foreign)
  exact ⟨h.noFiles, h.foreign, fun ht => h.told (hback _ ht), fun stamp ht => h.past _ (hback _ ht)⟩

theorem turn_seen (hkept : host.Keeps) {act : Act} {a : Option ClipboardAction}
    (h : Seen host history act.side (x.ends act.side))
    (hturn : x.turn host act = some (a, s)) (hend : x'.ends act.side = s) :
    Seen host (history ++ (note host x act x').toList) act.side s ∧
      (∀ n, note host x act x' = some n → News history n) ∧
      ∀ o c stamp foreign, note host x act x' ≠ some (.offered (!act.side) o c stamp foreign) := by
  -- a turn that announces nothing leaves only what it has seen to be shown
  have hquiet : (∀ b o c stamp foreign, note host x act x' ≠ some (.offered b o c stamp foreign)) →
      Seen host history act.side s →
      Seen host (history ++ (note host x act x').toList) act.side s ∧
        (∀ n, note host x act x' = some n → News history n) ∧
        ∀ o c stamp foreign,
          note host x act x' ≠ some (.offered (!act.side) o c stamp foreign) := by
    intro hno hseen
    refine ⟨hseen.note (hno _), ?_, hno _⟩
    intro n hn
    cases n with
    | offered b o c stamp foreign => exact absurd hn (hno b o c stamp foreign)
    | answered => trivial
    | pasted => trivial
  cases act with
  | poll e w =>
    have hp := polled host ((x.ends e).under w)
    have hnote : note host x (.poll e w) x' = noteOffer e s a := by
      rw [note, hturn]
      exact congrArg (fun t => noteOffer e t a) hend
    rw [show poll host (Desktop.access host) ((x.ends e).under w) = (a, s) from
      Option.some.inj hturn] at hp
    rcases hp.outcome with hq | ⟨c, hc⟩
    · refine hquiet ?_ ((h.under w).later hp.later hp.known)
      intro b o c stamp foreign hn
      rw [hnote, noteOffer_quiet hq] at hn
      cases hn
    · obtain ⟨hforeign, hnew, -⟩ := h.offers hp hc
      rw [hnote, noteOffer_offers hc]
      refine ⟨h.announced hp hc rfl, ?_, ?_⟩
      · rintro n hn
        cases hn
        exact ⟨hforeign, fun o c foreign' hm => hnew ⟨o, c, foreign', hm⟩⟩
      · intro o c' stamp foreign hn
        have hside := (Note.offered.inj (Option.some.inj hn)).1
        cases e <;> cases hside
  | copy e c =>
    cases hturn
    refine hquiet ?_ (h.copy c)
    intro b o c stamp foreign hn
    cases hn
  | deliver e k w =>
    obtain ⟨m, hm, hr⟩ := Option.map_eq_some_iff.mp hturn
    have hnote : note host x (.deliver e k w) x' = noteMessage host e w (x.ends e) m := by
      rw [note, hm]
      rfl
    refine hquiet ?_ ?_
    · intro b o c stamp foreign
      rw [hnote]
      exact noteMessage_ne_offered
    · cases m with
      | offer o | request r =>
        cases hr
        exact h
      | data header bytes =>
        have ht := taken host header bytes ((x.ends e).under w)
        rw [show (onData host (Desktop.access host) header bytes ((x.ends e).under w)).2 = s from
          congrArg Prod.snd hr] at ht
        exact h.data hkept ht

theorem Seen.start (setup : Bool → Setup) (e : Bool) :
    Seen host [] e ((Exchange.start host setup).ends e) := by
  have hp := primed host ((withFileTransfer
    { (setup e).clipboard with foreign := false } (setup e).enabled
    (setup e).filesEnabled).under (setup e).weather)
  have hforeign : ¬ ((Exchange.start host setup).ends e).clipboard.foreign = true := by
    intro hf
    cases (hp.later.foreign hf).1
  refine ⟨fun hf => absurd hf hforeign, fun hf => absurd hf hforeign, ?_, ?_⟩
  · rintro ⟨o, c, foreign, hm⟩
    cases hm
  · rintro stamp ⟨o, c, foreign, hm⟩
    cases hm

theorem news_of_observed (hkept : host.Keeps) (setup : Bool → Setup)
    (hr : Runs.Observed (step host) (note host) (start host setup) x history) :
    Runs.Each News history := by
  refine (hr.invariant (P := fun x history =>
    (∀ e, Seen host history e (x.ends e)) ∧ Runs.Each News history) ?_ ?_).2
  · exact ⟨Seen.start setup, Runs.each_nil _⟩
  · rintro x x' history act ⟨hseen, hnews⟩ hs
    obtain ⟨a, s, hturn, hend, hothers, -, -⟩ := step_cases hs
    obtain ⟨hmine, hnote, hother⟩ := turn_seen hkept (hseen act.side) hturn hend
    constructor
    · intro e
      rcases Bool.eq_or_eq_not e act.side with rfl | rfl
      · rwa [hend]
      · rw [hothers]
        exact (hseen _).note hother
    · generalize note host x act x' = n at hnote ⊢
      cases n with
      | none => simpa using hnews
      | some n => exact hnews.snoc (hnote n rfl)

/-! ### Runs without local copies -/

/-- Whether local programs leave the clipboards alone. -/
def Act.quiet : Act → Bool
  | .poll _ w => w.copies = []
  | .copy _ _ => false
  | .deliver _ _ w => w.copies = []

/-- The steps of an exchange in which nobody copies. -/
def quietStep (host : Host) (x : Exchange) (act : Act) : Option Exchange :=
  if act.quiet then x.step host act else none

/-- The message a step puts on the wire. -/
def sent (host : Host) (x : Exchange) (act : Act) (_ : Exchange) : Option ClipboardInbound :=
  (x.turn host act).bind fun r => r.1.bind ClipboardAction.message

/-- How many messages a message may bring. -/
def weight : ClipboardInbound → ℕ
  | .offer _ => 2
  | .request _ => 1
  | .data _ _ => 0

def load (wire : List ClipboardInbound) : ℕ := (wire.map weight).sum

open Classical in
/-- Whether an end has something left to announce. -/
noncomputable def fresh (host : Host) (s : ClipboardSync Desktop) : ℕ :=
  if s.clipboard.Familiar host s.known then 0 else 1

/-- The messages that one end may still cause by announcing, or by answering. -/
noncomputable def share (host : Host) (x : Exchange) (e : Bool) : ℕ :=
  3 * fresh host (x.ends e) + load (x.wires e)

noncomputable def budget (host : Host) (x : Exchange) : ℕ := share host x true + share host x false

theorem budget_eq (x : Exchange) (e : Bool) :
    budget host x = share host x e + share host x (!e) := by
  cases e
  · exact Nat.add_comm _ _
  · rfl

theorem load_eraseIdx {wire : List ClipboardInbound} {k : ℕ} {m : ClipboardInbound}
    (h : wire[k]? = some m) : weight m + load (wire.eraseIdx k) = load wire := by
  obtain ⟨hk, rfl⟩ := List.getElem?_eq_some_iff.mp h
  have hperm := (List.getElem_cons_eraseIdx_perm hk).map weight
  rw [load, load, ← hperm.sum_eq, List.map_cons, List.sum_cons]

theorem fresh_eq_zero (h : s.clipboard.Familiar host s.known) :
    fresh host s = 0 := if_pos h

theorem fresh_le {s s' : ClipboardSync Desktop}
    (hclip : s'.clipboard.contents = s.clipboard.contents ∧ s'.clipboard.files = s.clipboard.files)
    (hknown : s'.known = s.known ∨ s'.clipboard.Familiar host s'.known) :
    fresh host s' ≤ fresh host s := by
  by_cases hs : s.clipboard.Familiar host s.known
  · have hs' : s'.clipboard.Familiar host s'.known := by
      rcases hknown with hsame | hnew
      · intro c digest hfiles hc
        rw [hsame]
        exact hs c digest (hclip.2.symm.trans hfiles) (hclip.1.symm.trans hc)
      · exact hnew
    rw [fresh_eq_zero hs', fresh_eq_zero hs]
  · rw [fresh, fresh, if_neg hs]
    split <;> omega

theorem poll_pays {s s' : ClipboardSync Desktop} {w : Weather} {a : Option ClipboardAction}
    (hcopies : w.copies = []) (hp : Polled host (s.under w) a s') :
    (a.bind ClipboardAction.message).toList.length +
        load (a.bind ClipboardAction.message).toList + 3 * fresh host s' ≤ 3 * fresh host s := by
  rcases hp.outcome with hq | ⟨c, hc⟩
  · have hstill := hp.later.still hcopies
    have hle : fresh host s' ≤ fresh host s := by
      refine fresh_le ?_ hp.known
      rw [hstill]
      exact ⟨rfl, rfl⟩
    have hnone : a.bind ClipboardAction.message = none := by
      rcases hq.action with rfl | ⟨files, rfl⟩
      all_goals rfl
    rw [hnone]
    simp only [Option.toList_none, List.length_nil, load, List.map_nil, List.sum_nil]
    omega
  · -- one thing to announce, and now it is announced
    have hbefore : fresh host s = 1 := if_neg (hc.not_familiar hp.later hcopies)
    rw [hc.action, hbefore, fresh_eq_zero (hc.familiar hp)]
    simp [ClipboardAction.message, load, weight]

theorem receive_pays (hkept : host.Keeps) {w : Weather} (hcopies : w.copies = [])
    (s : ClipboardSync Desktop) (m : ClipboardInbound) :
    ((receive host w s m).1.bind ClipboardAction.message).toList.length +
        load ((receive host w s m).1.bind ClipboardAction.message).toList +
        3 * fresh host (receive host w s m).2 ≤ 3 * fresh host s + weight m := by
  cases m with
  | offer o =>
    simp only [receive, weight]
    cases h : onOffer o s with
    | none => simp [load]
    | some action =>
      obtain ⟨-, format, rfl⟩ := onOffer_eq_some h
      simp only [Option.bind_some, ClipboardAction.message, Option.toList_some,
        List.length_singleton, load, List.map_singleton, List.sum_singleton, weight]
      omega
  | request r =>
    simp only [receive, weight]
    cases h : onRequest r s with
    | none => simp [load]
    | some action =>
      obtain ⟨-, c, -, -, rfl⟩ := onRequest_eq_some h
      simp only [Option.bind_some, ClipboardAction.message, Option.toList_some,
        List.length_singleton, load, List.map_singleton, List.sum_singleton, weight]
      omega
  | data header bytes =>
    have ht := taken host header bytes (s.under w)
    simp only [receive, Option.bind_none, Option.toList_none, List.length_nil, load,
      List.map_nil, List.sum_nil, weight]
    generalize (onData host (Desktop.access host) header bytes (s.under w)).1 = r at ht
    generalize (onData host (Desktop.access host) header bytes (s.under w)).2 = t at ht ⊢
    have hle : fresh host t ≤ fresh host s := by
      cases ht with
      | refused => exact fresh_le ⟨rfl, rfl⟩ (.inl rfl)
      | failed =>
        have hstill := (Desktop.later_tick (s.under w).clipboard).still hcopies
        refine fresh_le ?_ (.inl rfl)
        rw [hstill]
        exact ⟨rfl, rfl⟩
      | written haccept _ _ =>
        rw [fresh_eq_zero (written_familiar hkept haccept _)]
        exact Nat.zero_le _
    omega

/-- **Every message is paid for.** -/
theorem budget_pays (host : Host) (hkept : host.Keeps) :
    Runs.Pays (quietStep host) (sent host) (budget host) := by
  intro x act x' hs
  unfold quietStep at hs
  split at hs
  swap
  · cases hs
  rename_i hquiet
  obtain ⟨a, s, hturn, hend, hothers, hsame, hother⟩ := step_cases hs
  have hsent : sent host x act x' = a.bind ClipboardAction.message := by
    rw [sent, hturn]
    rfl
  rw [hsent, budget_eq x' act.side, budget_eq x act.side]
  simp only [share, hend, hothers, hsame, hother]
  have happend : ∀ l l' : List ClipboardInbound, load (l ++ l') = load l + load l' := by
    intro l l'
    simp [load]
  rw [happend]
  cases act with
  | poll e w =>
    have hp := polled host ((x.ends e).under w)
    rw [show poll host (Desktop.access host) ((x.ends e).under w) = (a, s) from
      Option.some.inj hturn] at hp
    have hpay := poll_pays (by simpa [Act.quiet] using hquiet) hp
    simp only [taking, Act.side] at hpay ⊢
    omega
  | copy e c => cases hquiet
  | deliver e k w =>
    obtain ⟨m, hm, hr⟩ := Option.map_eq_some_iff.mp hturn
    have hpay := receive_pays hkept (by simpa [Act.quiet] using hquiet) (x.ends e) m
    have hload := load_eraseIdx hm
    have hne : ¬ (!e) = e := by cases e <;> decide
    rw [hr] at hpay
    simp only [taking, pick, Act.side, if_true, if_neg hne] at hpay ⊢
    omega

/-- **Clipboards do not echo.**  An announcement is never of what the peer sent
and never repeats one; once nobody copies, the messages still to come are
bounded, every endless run falls silent, and a state can be reached after which
nothing more is sent. -/
theorem no_echo (hkept : host.Keeps) (setup : Bool → Setup) {history : List Note}
    (hr : Runs.Observed (step host) (note host) (start host setup) x history) :
    Runs.Each News history ∧
      (∀ y messages, Runs.Observed (quietStep host) (sent host) x y messages →
        messages.length ≤ budget host x) ∧
      (∀ (states : ℕ → Exchange) (acts : ℕ → Act), states 0 = x →
        (∀ n, quietStep host (states n) (acts n) = some (states (n + 1))) →
        ∃ n, ∀ m, n ≤ m → sent host (states m) (acts m) (states (m + 1)) = none) ∧
      ∃ y messages, Runs.Observed (quietStep host) (sent host) x y messages ∧
        ∀ z more, Runs.Observed (quietStep host) (sent host) y z more → more = [] := by
  have hpays := budget_pays host hkept
  refine ⟨news_of_observed hkept setup hr, ?_, ?_, hpays.exists_silent x⟩
  · intro y messages hy
    have := hpays.length_add_le hy
    omega
  · intro states acts _ hrun
    exact hpays.eventually_silent hrun

theorem no_echo_hi : ∃ x, Runs.Observed (step sampleHost) (note sampleHost)
      (start sampleHost sampleSetup) x sampleNotes ∧ Runs.Each News sampleNotes ∧
      ∃ y messages, Runs.Observed (quietStep sampleHost) (sent sampleHost) x y messages ∧
        ∀ z more, Runs.Observed (quietStep sampleHost) (sent sampleHost) y z more → more = [] := by
  obtain ⟨x, hr⟩ := observed_sample
  obtain ⟨hnews, -, -, hquiet⟩ := no_echo sampleHost_keeps sampleSetup hr
  exact ⟨x, hr, hnews, hquiet⟩

end Exchange

end NebulaDesk
