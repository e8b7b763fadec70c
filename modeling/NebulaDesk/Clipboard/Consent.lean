/-
What was on the clipboard before sharing was allowed.

A session starts with `prime`, and sharing may be switched on later with
`setEnabled`.  From then on no local program touches the clipboard, but calls
may fail and the peer may send anything.  `Discreet` is the invariant that keeps
old contents from being announced: a change counter that has not moved, or
contents whose digest is remembered.  Two steps can break it, and `Guarded`
excludes exactly these (`never_announced_iff`):

* a priming read that fails, where the platform has no change counter;
* a write that fails after the peer's data was accepted, where it has one,
  since `onData` drops the counter before it writes.
-/
import NebulaDesk.Clipboard.Spec
import NebulaDesk.Lib.Runs

namespace NebulaDesk

structure Failures where
  filesFail : Bool
  readFail : Bool
  writeFail : Bool
deriving DecidableEq

def Failures.none : Failures := ⟨false, false, false⟩

/-- These calls fail, and no local program copies anything. -/
def Failures.weather (f : Failures) : Weather := ⟨f.filesFail, f.readFail, f.writeFail, []⟩

namespace ClipboardSync

/-- The sync as it meets the given weather. -/
def under (w : Weather) (s : ClipboardSync Desktop) : ClipboardSync Desktop :=
  { s with clipboard := { s.clipboard with weather := w } }

/-! ### Runs without local copies -/

/-- How sharing starts: with the session, or when it is switched on. -/
inductive Opening
  | prime (clipboard : Desktop) (enabled filesEnabled : Bool)
  | enable (s : ClipboardSync Desktop) (h : s.enabled = false)

def Opening.sync (host : Host) (f : Failures) : Opening → ClipboardSync Desktop
  | .prime d enabled filesEnabled =>
    ClipboardSync.prime host (Desktop.access host)
      ((withFileTransfer d enabled filesEnabled).under f.weather)
  | .enable s _ => setEnabled host (Desktop.access host) true (s.under f.weather)

/-- What happens to a sync while local programs leave the clipboard alone. -/
inductive Event
  | poll (f : Failures)
  | offer (offer : ClipboardOffer)
  | request (request : ClipboardRequest)
  | data (header : ClipboardDataHeader) (bytes : List UInt8) (f : Failures)
  | setEnabled (enabled : Bool) (f : Failures)

/-- What the sync answers, and the state it is left in. -/
def respond (host : Host) (s : ClipboardSync Desktop) :
    Event → Option ClipboardAction × ClipboardSync Desktop
  | .poll f => poll host (Desktop.access host) (s.under f.weather)
  | .offer o => (onOffer o s, s)
  | .request r => (onRequest r s, s)
  | .data header bytes f =>
    (none, (onData host (Desktop.access host) header bytes (s.under f.weather)).2)
  | .setEnabled enabled f =>
    (none, ClipboardSync.setEnabled host (Desktop.access host) enabled (s.under f.weather))

/-- The state after a list of events. -/
def after (host : Host) (s : ClipboardSync Desktop) (events : List Event) :
    ClipboardSync Desktop :=
  Runs.run (fun t e => (respond host t e).2) s events

/-- No poll announces anything. -/
def Silent (host : Host) (s : ClipboardSync Desktop) : Prop :=
  ∀ f o, (respond host s (.poll f)).1 ≠ some (.offer o)

/-- At no point of the run does a poll announce anything. -/
def NeverAnnounced (host : Host) (s : ClipboardSync Desktop) (events : List Event) : Prop :=
  ∀ before rest, events = before ++ rest → Silent host (after host s before)

/-! ### The condition -/

/-- Priming learns what is on the clipboard, or need not. -/
def Reads (host : Host) (f : Failures) (d : Desktop) : Prop :=
  d.counted = true ∨ f.filesFail = false ∧ f.readFail = false ∨ d.Familiar host none

/-- The write of accepted data goes through. -/
def Writes (host : Host) (f : Failures) (header : ClipboardDataHeader) (bytes : List UInt8) :
    Prop :=
  Desktop.representable host ⟨header.format, bytes⟩ = .ok () ∧ f.writeFail = false

def Opening.Guarded (host : Host) (f : Failures) : Opening → Prop
  | .prime d enabled _ => enabled = false ∨ Reads host f d
  | .enable s _ => Reads host f s.clipboard

/-- The steps that keep old contents old. -/
def Guarded (host : Host) (s : ClipboardSync Desktop) : Event → Prop
  | .setEnabled true f => s.enabled = true ∨ Reads host f s.clipboard
  | .data header bytes f =>
    s.clipboard.counted = false ∨ (∃ e, acceptData host header bytes s = .error e) ∨
      Writes host f header bytes ∨ s.clipboard.Familiar host s.known
  | _ => True

/-- Nothing on the clipboard is news. -/
def Discreet (host : Host) (s : ClipboardSync Desktop) : Prop :=
  s.enabled = true →
    s.clipboard.counted = true ∧ s.generation = some s.clipboard.counter ∨
      s.clipboard.Familiar host s.known

variable {host : Host} {s : ClipboardSync Desktop}

theorem Discreet.silent (h : Discreet host s) : Silent host s := by
  intro f o hoffer
  have hp := polled host (s.under f.weather)
  have htick : (s.under f.weather).clipboard.tick = (s.under f.weather).clipboard :=
    (Desktop.later_tick _).still rfl
  rcases hp.outcome with hq | ⟨c, hc⟩
  · rcases hq.action with hn | ⟨files, hn⟩
    all_goals
      rw [respond, hn] at hoffer
      cases hoffer
  · rcases h hc.enabled with ⟨hcounted, hgen⟩ | hfamiliar
    · refine hc.changed hcounted ?_
      rw [htick]
      exact hgen
    · exact hc.not_familiar hp.later rfl hfamiliar

variable {f : Failures}

theorem Discreet.prime (hreads : s.enabled = true → Reads host f s.clipboard) :
    Discreet host (ClipboardSync.prime host (Desktop.access host) (s.under f.weather)) := by
  have hp := primed host (s.under f.weather)
  intro hen
  have hen' : s.enabled = true := hp.enabled.symm.trans hen
  rcases hcounted : s.clipboard.counted with _ | _
  · right
    rcases hreads hen' with hc | ⟨hf, hr⟩ | hfamiliar
    · rw [hcounted] at hc
      cases hc
    · exact hp.remembered hen' hcounted hf hr
    · -- nothing here can be announced, whatever is remembered
      rw [hp.later.still rfl]
      intro c digest hfiles hc hdigest
      exact absurd (hfamiliar c digest hfiles hc hdigest) (by simp)
  · exact .inl ⟨hp.later.counted.trans hcounted, hp.baseline hen' hcounted⟩

theorem Opening.discreet {o : Opening} (h : o.Guarded host f) : Discreet host (o.sync host f) := by
  cases o with
  | prime d enabled filesEnabled =>
    refine Discreet.prime ?_
    intro hen
    refine h.resolve_left ?_
    intro hoff
    rw [hoff] at hen
    cases hen
  | enable s hoff =>
    show Discreet host (setEnabled host (Desktop.access host) true (s.under f.weather))
    rw [setEnabled_on (s := s.under f.weather) hoff]
    exact Discreet.prime
      (s := { s with enabled := true, outgoing := none, known := none }) (fun _ => h)

theorem Discreet.setEnabled (h : Discreet host s) {enabled : Bool}
    (hguard : Guarded host s (.setEnabled enabled f)) :
    Discreet host (respond host s (.setEnabled enabled f)).2 := by
  by_cases hsame : s.enabled = enabled
  · have : (respond host s (.setEnabled enabled f)).2 = s.under f.weather := if_pos hsame
    rw [this]
    exact h
  · cases enabled with
    | false =>
      have hon : s.enabled = true := by simpa using hsame
      intro hen
      rw [respond, setEnabled_off (s := s.under f.weather) hon] at hen
      cases hen
    | true =>
      have hoff : s.enabled = false := by simpa using hsame
      exact Opening.discreet (o := .enable s hoff) (hguard.resolve_left hsame)

theorem Discreet.poll (h : Discreet host s) (f : Failures) :
    Discreet host (respond host s (.poll f)).2 := by
  have hp := polled host (s.under f.weather)
  intro hen
  have hen' : s.enabled = true := hp.enabled.symm.trans hen
  rcases hcounted : s.clipboard.counted with _ | _
  · right
    rcases hp.known with hsame | hfamiliar
    · show (ClipboardSync.poll host (Desktop.access host) (s.under f.weather)).2.clipboard.Familiar
        host (ClipboardSync.poll host (Desktop.access host) (s.under f.weather)).2.known
      rw [hsame, hp.later.still rfl]
      rcases h hen' with ⟨hc, -⟩ | hfamiliar
      · rw [hcounted] at hc
        cases hc
      · exact hfamiliar
    · exact hfamiliar
  · exact .inl ⟨hp.later.counted.trans hcounted, hp.baseline rfl hen' hcounted⟩

theorem Discreet.data (hkept : host.Keeps) (h : Discreet host s) {header : ClipboardDataHeader}
    {bytes : List UInt8} (hguard : Guarded host s (.data header bytes f)) :
    Discreet host (respond host s (.data header bytes f)).2 := by
  have ht := taken host header bytes (s.under f.weather)
  show Discreet host (onData host (Desktop.access host) header bytes (s.under f.weather)).2
  have htick : (s.under f.weather).clipboard.tick = (s.under f.weather).clipboard :=
    (Desktop.later_tick _).still rfl
  generalize (onData host (Desktop.access host) header bytes (s.under f.weather)).1 = r at ht
  generalize (onData host (Desktop.access host) header bytes (s.under f.weather)).2 = t at ht ⊢
  cases ht with
  | refused => exact h
  | failed haccept hwrite =>
    intro hen
    right
    show (s.under f.weather).clipboard.tick.Familiar host s.known
    rw [htick]
    rcases hguard with hcounted | ⟨e, hrefused⟩ | ⟨hrep, hok⟩ | hfamiliar
    · rcases h hen with ⟨hc, -⟩ | hfamiliar
      · rw [hcounted] at hc
        cases hc
      · exact hfamiliar
    · cases hrefused.symm.trans haccept
    · -- the write cannot have failed
      simp only [Desktop.access, Desktop.write, hrep, htick] at hwrite
      rw [if_neg (by simp [under, Failures.weather, hok])] at hwrite
      cases hwrite
    · exact hfamiliar
  | written haccept _ _ =>
    intro _
    exact .inr (written_familiar hkept haccept _)

theorem Discreet.step (hkept : host.Keeps) (h : Discreet host s) {e : Event}
    (hguard : Guarded host s e) : Discreet host (respond host s e).2 := by
  cases e with
  | poll f => exact h.poll f
  | offer o => exact h
  | request r => exact h
  | data header bytes f => exact h.data hkept hguard
  | setEnabled enabled f => exact h.setEnabled hguard

/-! ### What an unguarded step gives away -/

theorem not_silent (hen : s.enabled = true) (hnews : ¬ s.clipboard.Familiar host s.known)
    (hchanged : s.clipboard.counted = true → s.generation ≠ some s.clipboard.counter) :
    ¬ Silent host s := by
  intro hsilent
  unfold Desktop.Familiar at hnews
  push Not at hnews
  obtain ⟨c, digest, hfiles, hc, hdigest, hne⟩ := hnews
  exact hsilent Failures.none _
    (poll_announces hen rfl rfl rfl hfiles hc hdigest hne
      hchanged)

theorem not_silent_prime (hen : s.enabled = true) (hknown : s.known = none)
    (hreads : ¬ Reads host f s.clipboard) :
    ¬ Silent host (ClipboardSync.prime host (Desktop.access host) (s.under f.weather)) := by
  unfold Reads at hreads
  push Not at hreads
  obtain ⟨hcounted, hfail, hnews⟩ := hreads
  have hp := primed host (s.under f.weather)
  have hfails : f.filesFail = true ∨ f.readFail = true := by
    by_cases hf : f.filesFail = false
    · exact .inr (by simpa using hfail hf)
    · exact .inl (by simpa using hf)
  have hmissed := hp.missed hfails
  refine not_silent (hp.enabled.trans hen) ?_ ?_
  · rw [hmissed, hp.later.still rfl]
    show ¬ s.clipboard.Familiar host s.known
    rwa [hknown]
  · intro hc
    exact absurd (hp.later.counted.symm.trans hc) hcounted

theorem Opening.not_silent {o : Opening} (h : ¬ o.Guarded host f) :
    ¬ Silent host (o.sync host f) := by
  cases o with
  | prime d enabled filesEnabled =>
    simp only [Opening.Guarded, not_or, Bool.not_eq_false] at h
    exact not_silent_prime h.1 rfl h.2
  | enable s hoff =>
    show ¬ Silent host (setEnabled host (Desktop.access host) true (s.under f.weather))
    rw [setEnabled_on (s := s.under f.weather) hoff]
    exact not_silent_prime
      (s := { s with enabled := true, outgoing := none, known := none }) rfl rfl h

theorem not_silent_of_not_guarded {e : Event} (h : ¬ Guarded host s e) :
    ¬ Silent host (respond host s e).2 := by
  cases e with
  | poll f => exact absurd trivial h
  | offer o => exact absurd trivial h
  | request r => exact absurd trivial h
  | setEnabled enabled f =>
    cases enabled with
    | false => exact absurd trivial h
    | true =>
      simp only [Guarded, not_or, Bool.not_eq_true] at h
      exact Opening.not_silent (o := .enable s h.1) h.2
  | data header bytes f =>
    simp only [Guarded, not_or, not_exists, Bool.not_eq_false] at h
    obtain ⟨hcounted, haccepted, hwrites, hnews⟩ := h
    have ht := taken host header bytes (s.under f.weather)
    show ¬ Silent host (onData host (Desktop.access host) header bytes (s.under f.weather)).2
    generalize (onData host (Desktop.access host) header bytes (s.under f.weather)).1 = r at ht
    generalize (onData host (Desktop.access host) header bytes (s.under f.weather)).2 = t at ht ⊢
    cases ht with
    | refused hrefused => exact absurd hrefused (haccepted _)
    | failed haccept hwrite =>
      refine not_silent (acceptData_digest haccept).1 ?_ ?_
      · show ¬ (s.under f.weather).clipboard.tick.Familiar host s.known
        rwa [(Desktop.later_tick _).still rfl]
      · intro _ hgen
        cases hgen
    | written _ hrep hok => exact absurd ⟨hrep, hok⟩ hwrites

/-- **Old contents stay unannounced exactly while every step is guarded.** -/
theorem never_announced_iff (hkept : host.Keeps) (o : Opening) (f : Failures)
    (events : List Event) :
    NeverAnnounced host (o.sync host f) events ↔
      o.Guarded host f ∧
        Runs.Each (fun before e => Guarded host (after host (o.sync host f) before) e) events := by
  constructor
  · intro hsilent
    constructor
    · by_contra hopen
      exact Opening.not_silent hopen (hsilent [] events rfl)
    · intro before e rest hevents
      by_contra hstep
      have hafter := hsilent (before ++ [e]) rest (by simp [hevents])
      rw [after, Runs.run_append] at hafter
      exact not_silent_of_not_guarded hstep hafter
  · rintro ⟨hopen, hguard⟩ before rest rfl
    refine Discreet.silent ?_
    -- the induction is on the prefix that has been run, its last step first
    induction before using List.reverseRecOn generalizing rest with
    | nil => exact Opening.discreet hopen
    | append_singleton before e ih =>
      have hdiscreet : Discreet host (after host (o.sync host f) before) := by
        refine ih (e :: rest) ?_
        intro before' e' rest' heq
        exact hguard before' e' rest' (by rw [← heq]; simp)
      rw [after, Runs.run_append]
      exact hdiscreet.step hkept (hguard before e rest (by simp))

/-! ### A session with a change counter -/

/-- A host without images whose clipboard keeps what it is given. -/
def sampleHost : Host where
  blake3 := id
  pngInfo := fun _ => .error "not a PNG"
  pngFrame := fun _ => .error "not a PNG"
  kept := id

theorem sampleHost_keeps : sampleHost.Keeps := fun _ _ h => h

/-- A counted clipboard that holds the text `key`. -/
def sampleDesktop : Desktop :=
  ⟨true, 7, some ⟨.text, [0x6b, 0x65, 0x79]⟩, none, false, Weather.calm⟩

/-- Contents that are not UTF-8, sent as text. -/
def sampleIntrusion : Event := .data ⟨1, .text⟩ [0xff] Failures.none

/-- One malformed message makes the old text look new: no call fails here except
the write that cannot succeed. -/
theorem intrusion_announces_key :
    ¬ NeverAnnounced sampleHost
      ((Opening.prime sampleDesktop true false).sync sampleHost Failures.none)
      [sampleIntrusion] := by
  intro h
  refine h [sampleIntrusion] [] rfl Failures.none ⟨1, [.text], 3⟩ ?_
  decide +kernel

/-- Well-formed text from the peer leaves the old text unannounced. -/
theorem never_announced_hello :
    NeverAnnounced sampleHost
      ((Opening.prime sampleDesktop true false).sync sampleHost Failures.none)
      [.data ⟨1, .text⟩ [0x68, 0x69] Failures.none] := by
  refine (never_announced_iff sampleHost_keeps _ _ _).mpr ⟨.inr (.inl rfl), ?_⟩
  intro before e rest h
  cases before with
  | nil =>
    obtain ⟨rfl, -⟩ := List.cons.inj h
    exact .inr (.inr (.inl ⟨by decide +kernel, rfl⟩))
  | cons x before => simp at h

end ClipboardSync

end NebulaDesk
