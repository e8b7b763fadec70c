/-
What the operations of a clipboard sync do on a desktop clipboard.

`Desktop.Later` says what can have happened to a clipboard that nobody but
local programs wrote to.  `polled`, `primed` and `taken` are the specifications
of `poll`, `prime` and `onData`; later modules use them and never unfold the
operations.
-/
import NebulaDesk.Clipboard.Sync

namespace NebulaDesk

/-- A written clipboard reads back with the digest of what was written. -/
def Host.Keeps (host : Host) : Prop :=
  ∀ c digest, c.digest host = .ok digest → (host.kept c).digest host = .ok digest

/-! ### Time passing -/

namespace Desktop

/-- `d'` is `d` some calls later: only local programs changed it. -/
structure Later (d d' : Desktop) : Prop where
  counted : d'.counted = d.counted
  filesFail : d'.weather.filesFail = d.weather.filesFail
  readFail : d'.weather.readFail = d.weather.readFail
  writeFail : d'.weather.writeFail = d.weather.writeFail
  counter : d.counter ≤ d'.counter
  same : d'.counter = d.counter →
    d'.contents = d.contents ∧ d'.files = d.files ∧ d'.foreign = d.foreign
  foreign : d'.foreign = true →
    d.foreign = true ∧ d'.contents = d.contents ∧ d'.files = d.files
  still : d.weather.copies = [] → d' = d

namespace Later

variable {d d' d'' : Desktop}

theorem refl (d : Desktop) : d.Later d :=
  ⟨rfl, rfl, rfl, rfl, le_rfl, fun _ => ⟨rfl, rfl, rfl⟩, fun h => ⟨h, rfl, rfl⟩, fun _ => rfl⟩

theorem trans (h : d.Later d') (h' : d'.Later d'') : d.Later d'' where
  counted := h'.counted.trans h.counted
  filesFail := h'.filesFail.trans h.filesFail
  readFail := h'.readFail.trans h.readFail
  writeFail := h'.writeFail.trans h.writeFail
  counter := le_trans h.counter h'.counter
  same := by
    intro heq
    have h₁ := h.counter
    have h₂ := h'.counter
    obtain ⟨hc', hf', hg'⟩ := h'.same (by omega)
    obtain ⟨hc, hf, hg⟩ := h.same (by omega)
    exact ⟨hc'.trans hc, hf'.trans hf, hg'.trans hg⟩
  foreign := by
    intro hf
    obtain ⟨hd', hc', hfs'⟩ := h'.foreign hf
    obtain ⟨hd, hc, hfs⟩ := h.foreign hd'
    exact ⟨hd, hc'.trans hc, hfs'.trans hfs⟩
  still := by
    intro hs
    obtain rfl := h.still hs
    exact h'.still hs

end Later

theorem later_tick (d : Desktop) : d.Later d.tick := by
  unfold tick
  rcases hcopies : d.weather.copies with _ | ⟨_ | x, rest⟩
  · -- an empty list of copies stays empty, so nothing at all has changed
    have hsame : { d with weather := { d.weather with copies := ([] : List _).tail } } = d := by
      rw [List.tail_nil, ← hcopies]
    simp only [List.head?_nil]
    rw [hsame]
    exact Later.refl d
  · refine ⟨rfl, rfl, rfl, rfl, le_rfl, fun _ => ⟨rfl, rfl, rfl⟩, fun h => ⟨h, rfl, rfl⟩, ?_⟩
    intro hs
    rw [hcopies] at hs
    cases hs
  · simp only [List.head?_cons, List.tail_cons]
    refine ⟨rfl, rfl, rfl, rfl, Nat.le_succ _, ?_, ?_, ?_⟩
    · intro heq
      exact absurd heq (Nat.succ_ne_self _)
    · intro hf
      simp only [copy, Bool.and_eq_true, decide_eq_true_eq] at hf
      exact ⟨hf.1, hf.2.1.symm, hf.2.2.symm⟩
    · intro hs
      rw [hcopies] at hs
      cases hs

/-- Whatever a poll could announce has the remembered digest. -/
def Familiar (host : Host) (known : Option (List UInt8)) (d : Desktop) : Prop :=
  ∀ c digest, d.files = none → d.contents = some c → c.digest host = .ok digest →
    known = some digest

/-- The change counter, where the platform has one. -/
def count (d : Desktop) : Option ℕ := if d.counted then some d.counter else none

theorem familiar_of_contents_none {host : Host} {known : Option (List UInt8)} {d : Desktop}
    (h : d.contents = none) : d.Familiar host known := by
  intro c digest _ hc
  rw [h] at hc
  cases hc

theorem familiar_of_files {host : Host} {known : Option (List UInt8)} {d : Desktop}
    {files : List PathBuf} (h : d.files = some files) : d.Familiar host known := by
  intro c digest hf
  rw [h] at hf
  cases hf

end Desktop

namespace ClipboardSync

variable {host : Host} {s s₁ s' : ClipboardSync Desktop} {a : Option ClipboardAction}

/-! ### Polling -/

/-- A poll of `s` announces the contents `c`. -/
structure Offers (host : Host) (s : ClipboardSync Desktop) (c : Contents)
    (a : Option ClipboardAction) (s' : ClipboardSync Desktop) : Prop where
  action : a = some (.offer ⟨s.nextOffer, [c.format], c.bytes.length⟩)
  nextOffer : s'.nextOffer = (s.nextOffer + 1) % 2 ^ 64
  outgoing : s'.outgoing = some (s.nextOffer, c)
  enabled : s.enabled = true
  contents : s'.clipboard.contents = some c
  small : c.bytes.length ≤ maxContents
  news : ∃ digest, c.digest host = .ok digest ∧ s.known ≠ some digest ∧ s'.known = some digest
  noFiles : ∃ d, s.clipboard.Later d ∧ d.Later s'.clipboard ∧ d.files = none
  changed : s.clipboard.counted = true → s.generation ≠ some s.clipboard.tick.counter

/-- A poll of `s` announces nothing. -/
structure Quiet (s : ClipboardSync Desktop) (a : Option ClipboardAction)
    (s' : ClipboardSync Desktop) : Prop where
  action : a = none ∨ ∃ files, a = some (.files files)
  nextOffer : s'.nextOffer = s.nextOffer
  outgoing : s'.outgoing = none ∨ s'.outgoing = s.outgoing

/-- What a poll of `s` may return and leave. -/
structure Polled (host : Host) (s : ClipboardSync Desktop) (a : Option ClipboardAction)
    (s' : ClipboardSync Desktop) : Prop where
  later : s.clipboard.Later s'.clipboard
  enabled : s'.enabled = s.enabled
  filesEnabled : s'.filesEnabled = s.filesEnabled
  known : s'.known = s.known ∨ s'.clipboard.Familiar host s'.known
  baseline : s.clipboard.weather.copies = [] → s.enabled = true → s.clipboard.counted = true →
    s'.generation = some s'.clipboard.counter
  outcome : Quiet s a s' ∨ ∃ c, Offers host s c a s'

/-- A poll of `s` that got past the change counter has reached `s₁`. -/
structure Underway (s : ClipboardSync Desktop) (s₁ : ClipboardSync Desktop) : Prop where
  later : s.clipboard.tick.Later s₁.clipboard
  enabled : s₁.enabled = s.enabled
  filesEnabled : s₁.filesEnabled = s.filesEnabled
  known : s₁.known = s.known
  nextOffer : s₁.nextOffer = s.nextOffer
  outgoing : s₁.outgoing = s.outgoing
  baseline : s.clipboard.counted = true → s₁.generation = some s.clipboard.tick.counter
  changed : s.clipboard.counted = true → s.generation ≠ some s.clipboard.tick.counter

namespace Underway

/-- Time passes; the rest of the state may only forget what was offered. -/
theorem wait (h : Underway s s₁) {d : Desktop} (hd : s₁.clipboard.Later d)
    {files : Option (List PathBuf)} :
    Underway s { s₁ with clipboard := d, knownFiles := files } :=
  { h with later := h.later.trans hd }

theorem count_eq (h : Underway s s₁) (hcount : s₁.clipboard.count = s.clipboard.tick.count) :
    s.clipboard.counted = true → s₁.clipboard.counter = s.clipboard.tick.counter := by
  intro hc
  have htick : s.clipboard.tick.counted = true := (Desktop.later_tick _).counted.trans hc
  have h₁ : s₁.clipboard.counted = true := h.later.counted.trans htick
  simpa [Desktop.count, htick, h₁] using hcount

theorem stop (h : Underway s s₁) (hknown : s'.known = s.known ∨
      s'.clipboard.Familiar host s'.known)
    (hclip : s'.clipboard = s₁.clipboard) (hgen : s'.generation = s₁.generation)
    (hen : s'.enabled = s₁.enabled) (hfen : s'.filesEnabled = s₁.filesEnabled)
    (hq : Quiet s a s') : Polled host s a s' where
  later := by
    rw [hclip]
    exact (Desktop.later_tick _).trans h.later
  enabled := hen.trans h.enabled
  filesEnabled := hfen.trans h.filesEnabled
  known := hknown
  baseline := by
    intro hcopies _ hcounted
    have hstill := (Desktop.later_tick s.clipboard).still hcopies
    rw [hgen, h.baseline hcounted, hclip, h.later.still (by rw [hstill]; exact hcopies)]
  outcome := .inl hq

end Underway

/-- The second look at the change counter: if it has not moved, neither have the
contents. -/
theorem moved_underway (host : Host) (h : Underway s s₁) :
    Underway s (moved (Desktop.access host) s.clipboard.tick.count s₁).2 ∧
      s₁.clipboard.Later (moved (Desktop.access host) s.clipboard.tick.count s₁).2.clipboard ∧
      ((moved (Desktop.access host) s.clipboard.tick.count s₁).1 = false →
        (moved (Desktop.access host) s.clipboard.tick.count s₁).2.clipboard.contents =
            s₁.clipboard.contents ∧
          (moved (Desktop.access host) s.clipboard.tick.count s₁).2.clipboard.files =
            s₁.clipboard.files) := by
  unfold moved
  have htick := Desktop.later_tick s₁.clipboard
  by_cases hsome : s.clipboard.tick.count.isSome
  · rw [if_pos hsome]
    have hwait : Underway s { s₁ with clipboard := s₁.clipboard.tick } := h.wait htick
    refine ⟨hwait, htick, ?_⟩
    intro hstale
    have hcheck : decide (s₁.clipboard.tick.count ≠ s.clipboard.tick.count) = false := hstale
    have heq : s₁.clipboard.tick.count = s.clipboard.tick.count := by
      simpa using hcheck
    have hcounted : s.clipboard.counted = true := by
      have : s.clipboard.tick.counted = true := by
        by_contra hne
        simp [Desktop.count, hne] at hsome
      exact (Desktop.later_tick _).counted.symm.trans this
    have hnow := hwait.count_eq heq hcounted
    have hle := h.later.counter
    have hle' := htick.counter
    obtain ⟨hc, hf, -⟩ := htick.same (by dsimp only at hnow; omega)
    exact ⟨hc, hf⟩
  · rw [if_neg hsome]
    exact ⟨h, Desktop.Later.refl _, fun _ => ⟨rfl, rfl⟩⟩

variable {c : Contents}

theorem announce_polled (h : Underway s s₁) (hen : s₁.enabled = true)
    (hc : s₁.clipboard.contents = some c)
    (hfiles : ∃ d, s.clipboard.Later d ∧ d.Later s₁.clipboard ∧ d.files = none) :
    Polled host s (announce host c s₁).1 (announce host c s₁).2 := by
  have hdrop : Quiet s none { s₁ with outgoing := none } := ⟨.inl rfl, h.nextOffer, .inl rfl⟩
  unfold announce
  by_cases hlarge : c.bytes.length > maxContents
  · rw [if_pos hlarge]
    exact h.stop (.inl h.known) rfl rfl rfl rfl hdrop
  · rw [if_neg hlarge]
    rcases hdigest : c.digest host with e | digest
    · exact h.stop (.inl h.known) rfl rfl rfl rfl hdrop
    · by_cases hknown : s₁.known = some digest
      · simp only [if_pos hknown]
        exact h.stop (.inl h.known) rfl rfl rfl rfl ⟨.inl rfl, h.nextOffer, .inr h.outgoing⟩
      · simp only [if_neg hknown]
        have hfamiliar : s₁.clipboard.Familiar host (some digest) := by
          intro c' digest' _ hc' hdigest'
          obtain rfl := Option.some.inj (hc.symm.trans hc')
          rw [hdigest] at hdigest'
          exact congrArg some (Except.ok.inj hdigest')
        have hlater : s.clipboard.Later s₁.clipboard := (Desktop.later_tick _).trans h.later
        refine ⟨hlater, h.enabled, h.filesEnabled, .inr hfamiliar, ?_, .inr ⟨c, ?_⟩⟩
        · intro hcopies _ hcounted
          have hstill := (Desktop.later_tick s.clipboard).still hcopies
          rw [h.baseline hcounted, h.later.still (by rw [hstill]; exact hcopies)]
        · rw [h.nextOffer]
          exact
            { action := rfl
              nextOffer := rfl
              outgoing := rfl
              enabled := h.enabled.symm.trans hen
              contents := hc
              small := Nat.le_of_not_gt hlarge
              news := ⟨digest, hdigest, fun hk => hknown (h.known.trans hk), rfl⟩
              noFiles := hfiles
              changed := h.changed }

theorem pollContents_polled (h : Underway s s₁) (hfiles : s₁.clipboard.files = none) :
    Polled host s (pollContents host (Desktop.access host) s.clipboard.tick.count s₁).1
      (pollContents host (Desktop.access host) s.clipboard.tick.count s₁).2 := by
  have hlater : s.clipboard.Later s₁.clipboard := (Desktop.later_tick _).trans h.later
  have htick := Desktop.later_tick s₁.clipboard
  have hwait : Underway s { s₁ with clipboard := s₁.clipboard.tick } := h.wait htick
  unfold pollContents
  by_cases hen : s₁.enabled = true
  swap
  · rw [if_pos (by simpa using hen)]
    exact h.stop (.inl h.known) rfl rfl rfl rfl ⟨.inl rfl, h.nextOffer, .inr h.outgoing⟩
  · rw [if_neg (by simpa using hen)]
    rcases hread : (Desktop.access host).read s₁.clipboard with ⟨_ | _ | c, d⟩
    all_goals
      obtain ⟨hres, rfl⟩ := Prod.mk.inj hread
    · exact hwait.stop (.inl h.known) rfl rfl rfl rfl ⟨.inl rfl, h.nextOffer, .inl rfl⟩
    · have hnone : s₁.clipboard.tick.contents = none := by
        split at hres
        · cases hres
        · exact Except.ok.inj hres
      exact hwait.stop (.inr (Desktop.familiar_of_contents_none hnone)) rfl rfl rfl rfl
        ⟨.inl rfl, h.nextOffer, .inl rfl⟩
    · have hsome : s₁.clipboard.tick.contents = some c := by
        split at hres
        · cases hres
        · exact Except.ok.inj hres
      obtain ⟨hmoved, hlast, hsame⟩ := moved_underway host hwait
      dsimp only
      split
      · exact hmoved.stop (.inl hmoved.known) rfl rfl rfl rfl
          ⟨.inl rfl, hmoved.nextOffer, .inr hmoved.outgoing⟩
      · rename_i hstale
        refine announce_polled hmoved (hmoved.enabled.trans (h.enabled.symm.trans hen))
          ((hsame (by simpa using hstale)).1.trans hsome) ?_
        exact ⟨s₁.clipboard, hlater, htick.trans hlast, hfiles⟩

theorem pollFiles_polled (host : Host) (h : Underway s s₁) :
    Polled host s (pollFiles host (Desktop.access host) s.clipboard.tick.count s₁).1
      (pollFiles host (Desktop.access host) s.clipboard.tick.count s₁).2 := by
  have htick := Desktop.later_tick s₁.clipboard
  have hwait : Underway s { s₁ with clipboard := s₁.clipboard.tick } := h.wait htick
  unfold pollFiles
  rcases hread : (Desktop.access host).readFiles s₁.clipboard with ⟨_ | _ | files, d⟩
  all_goals
    obtain ⟨hres, rfl⟩ := Prod.mk.inj hread
  · exact hwait.stop (.inl h.known) rfl rfl rfl rfl ⟨.inl rfl, h.nextOffer, .inl rfl⟩
  · have hnone : s₁.clipboard.tick.files = none := by
      split at hres
      · cases hres
      · exact Except.ok.inj hres
    exact pollContents_polled (h.wait htick) hnone
  · have hsome : s₁.clipboard.tick.files = some files := by
      split at hres
      · cases hres
      · exact Except.ok.inj hres
    obtain ⟨hmoved, -, hsame⟩ := moved_underway host hwait
    dsimp only
    split
    · exact hmoved.stop (.inl hmoved.known) rfl rfl rfl rfl
        ⟨.inl rfl, hmoved.nextOffer, .inr hmoved.outgoing⟩
    · rename_i hstale
      have hfiles := (hsame (by simpa using hstale)).2.trans hsome
      refine hmoved.stop (.inr (Desktop.familiar_of_files hfiles)) rfl rfl rfl rfl
        ⟨?_, hmoved.nextOffer, .inl rfl⟩
      unfold announceFiles
      dsimp only
      split
      · exact .inr ⟨_, rfl⟩
      · exact .inl rfl

/-- **Specification of `poll`.** -/
theorem polled (host : Host) (s : ClipboardSync Desktop) :
    Polled host s (poll host (Desktop.access host) s).1 (poll host (Desktop.access host) s).2 := by
  have htick := Desktop.later_tick s.clipboard
  unfold poll
  by_cases hoff : (!s.enabled && !s.filesEnabled) = true
  · rw [if_pos hoff]
    refine ⟨.refl _, rfl, rfl, .inl rfl, ?_, .inl ⟨.inl rfl, rfl, .inr rfl⟩⟩
    intro _ hen
    simp [hen] at hoff
  · rw [if_neg hoff]
    have hgen : (Desktop.access host).generation s.clipboard =
        (s.clipboard.tick.count, s.clipboard.tick) := rfl
    simp only [hgen]
    rcases hcount : s.clipboard.tick.count with _ | g
    · -- without a counter every poll reads
      have hun : ¬ s.clipboard.counted = true := by
        rw [← htick.counted]
        intro hc
        simp [Desktop.count, hc] at hcount
      have hway : Underway s { s with clipboard := s.clipboard.tick } :=
        ⟨.refl _, rfl, rfl, rfl, rfl, rfl, fun hc => absurd hc hun, fun hc => absurd hc hun⟩
      have hpolled := pollFiles_polled host hway
      rwa [hcount] at hpolled
    · have hg : g = s.clipboard.tick.counter := by
        rcases hc : s.clipboard.tick.counted with _ | _
        · simp [Desktop.count, hc] at hcount
        · simpa [Desktop.count, hc] using hcount.symm
      by_cases hsame : s.generation = some g
      · simp only [if_pos hsame]
        refine ⟨htick, rfl, rfl, .inl rfl, ?_, .inl ⟨.inl rfl, rfl, .inr rfl⟩⟩
        intro _ _ _
        exact hsame.trans (congrArg some hg)
      · simp only [if_neg hsame]
        have hway : Underway s { s with clipboard := s.clipboard.tick, generation := some g } :=
          ⟨.refl _, rfl, rfl, rfl, rfl, rfl, fun _ => congrArg some hg, fun _ => hg ▸ hsame⟩
        have hpolled := pollFiles_polled host hway
        rwa [hcount] at hpolled

/-- If everything a poll could have announced was known, an announcement means
that a local program has changed the clipboard to something else. -/
theorem Offers.fresh (h : Offers host s c a s')
    (hlater : s.clipboard.Later s'.clipboard) (hknown : s.clipboard.Familiar host s.known)
    (hforeign : s.clipboard.foreign = true → s.clipboard.files = none) :
    s.clipboard.counter < s'.clipboard.counter ∧ s'.clipboard.foreign = false := by
  obtain ⟨digest, hdigest, hnews, -⟩ := h.news
  obtain ⟨d, hd, hd', hnone⟩ := h.noFiles
  constructor
  · by_contra hle
    have h₁ := hd.counter
    have h₂ := hd'.counter
    -- no change at all: what was announced was there before, and no files were
    obtain ⟨hc, -, -⟩ := hlater.same (by omega)
    obtain ⟨-, hf, -⟩ := hd.same (by omega)
    exact hnews (hknown c digest (hf.symm.trans hnone) (hc.symm.trans h.contents) hdigest)
  · by_contra hne
    obtain ⟨hold, hc, hf⟩ := hlater.foreign (by simpa using hne)
    exact hnews (hknown c digest (hforeign hold) (hc.symm.trans h.contents) hdigest)

theorem digest_small {digest : List UInt8} (h : c.digest host = .ok digest) :
    c.bytes.length ≤ maxContents := by
  by_contra hlarge
  simp [Contents.digest, Nat.lt_of_not_le hlarge, bind, Except.bind, throw, throwThe,
    MonadExceptOf.throw] at h

theorem poll_announces {digest : List UInt8} (hen : s.enabled = true)
    (hcopies : s.clipboard.weather.copies = []) (hfilesFail : s.clipboard.weather.filesFail = false)
    (hreadFail : s.clipboard.weather.readFail = false) (hfiles : s.clipboard.files = none)
    (hc : s.clipboard.contents = some c) (hdigest : c.digest host = .ok digest)
    (hnews : s.known ≠ some digest)
    (hchanged : s.clipboard.counted = true → s.generation ≠ some s.clipboard.counter) :
    (poll host (Desktop.access host) s).1 =
      some (.offer ⟨s.nextOffer, [c.format], c.bytes.length⟩) := by
  have htick : s.clipboard.tick = s.clipboard := (Desktop.later_tick _).still hcopies
  have hsmall : ¬ c.bytes.length > maxContents := Nat.not_lt.mpr (digest_small hdigest)
  have hannounce : ∀ t : ClipboardSync Desktop, t.known = s.known → t.nextOffer = s.nextOffer →
      (announce host c t).1 = some (.offer ⟨s.nextOffer, [c.format], c.bytes.length⟩) := by
    intro t hk hn
    have hk' : t.known ≠ some digest := hk ▸ hnews
    simp [announce, hsmall, hdigest, hk', hn]
  have hgen : (Desktop.access host).generation s.clipboard = (s.clipboard.count, s.clipboard) := by
    simp only [Desktop.access, Desktop.generation, Desktop.count, htick]
  have hread : (Desktop.access host).read s.clipboard = (.ok (some c), s.clipboard) := by
    simp only [Desktop.access, Desktop.read, htick, hreadFail, hc, Bool.false_eq_true, if_false]
  have hreadFiles : (Desktop.access host).readFiles s.clipboard = (.ok none, s.clipboard) := by
    simp only [Desktop.access, Desktop.readFiles, htick, hfilesFail, hfiles, Bool.false_eq_true,
      if_false]
  -- the counter does not move, so the second look at it changes nothing
  have hmoved : ∀ t : ClipboardSync Desktop, t.clipboard = s.clipboard →
      moved (Desktop.access host) s.clipboard.count t = (false, t) := by
    intro t ht
    unfold moved
    split
    · rw [ht, hgen, ← ht]
      simp
    · rfl
  have hfilesPart : ∀ t : ClipboardSync Desktop, t.clipboard = s.clipboard → t.enabled = true →
      t.known = s.known → t.nextOffer = s.nextOffer →
      (pollFiles host (Desktop.access host) s.clipboard.count t).1 =
        some (.offer ⟨s.nextOffer, [c.format], c.bytes.length⟩) := by
    intro t ht hte htk htn
    unfold pollFiles
    rw [ht, hreadFiles]
    dsimp only
    unfold pollContents
    simp only [hte, Bool.not_true, Bool.false_eq_true, if_false]
    rw [hread]
    simp only [hmoved, Bool.false_eq_true, if_false]
    exact hannounce _ htk htn
  unfold poll
  rw [if_neg (by simp [hen]), hgen]
  dsimp only
  rcases hcount : s.clipboard.count with _ | g
  · have hrest := hfilesPart { s with clipboard := s.clipboard } rfl hen rfl rfl
    rwa [hcount] at hrest
  · have hne : s.generation ≠ some g := by
      rcases hcounted : s.clipboard.counted with _ | _
      · simp [Desktop.count, hcounted] at hcount
      · have hg : s.clipboard.counter = g := by simpa [Desktop.count, hcounted] using hcount
        exact hg ▸ hchanged hcounted
    have hrest := hfilesPart { s with clipboard := s.clipboard, generation := some g } rfl hen rfl rfl
    rw [hcount] at hrest
    simpa only [if_neg hne] using hrest

theorem Offers.not_familiar (h : Offers host s c a s') (hlater : s.clipboard.Later s'.clipboard)
    (hcopies : s.clipboard.weather.copies = []) : ¬ s.clipboard.Familiar host s.known := by
  intro hfamiliar
  obtain ⟨digest, hdigest, hnews, -⟩ := h.news
  obtain ⟨d, hd, -, hfiles⟩ := h.noFiles
  have hcontents := h.contents
  rw [hlater.still hcopies] at hcontents
  rw [hd.still hcopies] at hfiles
  exact hnews (hfamiliar c digest hfiles hcontents hdigest)

theorem Offers.familiar (h : Offers host s c a s') (hp : Polled host s a s') :
    s'.clipboard.Familiar host s'.known := by
  obtain ⟨digest, -, hnews, hknown⟩ := h.news
  refine hp.known.resolve_left ?_
  intro hsame
  exact hnews (hsame.symm.trans hknown)

/-! ### Offers and requests -/

theorem onOffer_eq_some {offer : ClipboardOffer} {action : ClipboardAction}
    (h : onOffer offer s = some action) :
    s.enabled = true ∧ ∃ format, action = .request ⟨offer.offerId, format⟩ := by
  unfold onOffer at h
  by_cases hen : s.enabled = true
  · refine ⟨hen, ?_⟩
    rw [if_neg (by simp [hen])] at h
    split at h
    · cases h
    · obtain ⟨format, -, rfl⟩ := Option.map_eq_some_iff.mp h
      exact ⟨format, rfl⟩
  · rw [if_pos (by simpa using hen)] at h
    cases h

theorem onRequest_eq_some {request : ClipboardRequest} {action : ClipboardAction}
    (h : onRequest request s = some action) :
    s.enabled = true ∧ ∃ c, s.outgoing = some (request.offerId, c) ∧
      c.format = request.format ∧ action = .data ⟨request.offerId, c.format⟩ c.bytes := by
  unfold onRequest at h
  by_cases hen : s.enabled = true
  · refine ⟨hen, ?_⟩
    rw [if_neg (by simp [hen])] at h
    rcases hout : s.outgoing with _ | ⟨id, c⟩
    · rw [hout] at h
      cases h
    · rw [hout] at h
      dsimp only at h
      split at h
      · cases h
      · rename_i hmatch
        simp only [ne_eq, decide_not, Bool.or_eq_true, Bool.not_eq_true', decide_eq_false_iff_not,
          not_or, not_not] at hmatch
        obtain ⟨rfl, hformat⟩ := hmatch
        exact ⟨c, rfl, hformat, (Option.some.inj h).symm⟩
  · rw [if_pos (by simpa using hen)] at h
    cases h

/-! ### Priming -/

/-- What priming `s` leaves. -/
structure Primed (host : Host) (s s' : ClipboardSync Desktop) : Prop where
  later : s.clipboard.Later s'.clipboard
  enabled : s'.enabled = s.enabled
  filesEnabled : s'.filesEnabled = s.filesEnabled
  nextOffer : s'.nextOffer = s.nextOffer
  outgoing : s'.outgoing = s.outgoing
  baseline : s.enabled = true → s.clipboard.counted = true →
    s'.generation = some s'.clipboard.counter
  remembered : s.enabled = true → s.clipboard.counted = false →
    s.clipboard.weather.filesFail = false → s.clipboard.weather.readFail = false →
      s'.clipboard.Familiar host s'.known
  missed : s.clipboard.weather.filesFail = true ∨ s.clipboard.weather.readFail = true →
    s'.known = s.known

theorem primeContents_primed (host : Host) (s : ClipboardSync Desktop) (hcount : s.clipboard.counted = false)
    (hfiles : s.clipboard.weather.filesFail = false) :
    Primed host s (primeContents host (Desktop.access host) s) := by
  have htick := Desktop.later_tick s.clipboard
  have hno : ¬ s.clipboard.counted = true := by simp [hcount]
  unfold primeContents
  by_cases hen : s.enabled = true
  swap
  · rw [if_neg hen]
    exact ⟨.refl _, rfl, rfl, rfl, rfl, fun h => absurd h hen, fun h => absurd h hen, fun _ => rfl⟩
  · rw [if_pos hen]
    rcases hread : (Desktop.access host).read s.clipboard with ⟨_ | _ | c, d⟩
    all_goals
      obtain ⟨hres, rfl⟩ := Prod.mk.inj hread
    · refine ⟨htick, rfl, rfl, rfl, rfl, fun _ hc => absurd hc hno, ?_, fun _ => rfl⟩
      intro _ _ _ hok
      rw [if_neg (by simp [htick.readFail, hok])] at hres
      cases hres
    · refine ⟨htick, rfl, rfl, rfl, rfl, fun _ hc => absurd hc hno, ?_, fun _ => rfl⟩
      intro _ _ _ hok
      rw [if_neg (by simp [htick.readFail, hok])] at hres
      exact Desktop.familiar_of_contents_none (Except.ok.inj hres)
    · have hfamiliar : ∀ known, (∀ digest, c.digest host = .ok digest → known = some digest) →
          s.clipboard.weather.readFail = false → s.clipboard.tick.Familiar host known := by
        intro known hall hok c' digest _ hc hdigest
        rw [if_neg (by simp [htick.readFail, hok])] at hres
        obtain rfl := Option.some.inj ((Except.ok.inj hres).symm.trans hc)
        exact hall digest hdigest
      dsimp only
      split
      · rename_i digest hdigest
        refine ⟨htick, rfl, rfl, rfl, rfl, fun _ hc => absurd hc hno, ?_, ?_⟩
        · intro _ _ _ hok
          refine hfamiliar _ ?_ hok
          intro digest' hdigest'
          rw [hdigest] at hdigest'
          exact congrArg some (Except.ok.inj hdigest')
        · intro hfail
          have hread' : s.clipboard.weather.readFail = true := hfail.resolve_left (by simp [hfiles])
          rw [if_pos (by simp [htick.readFail, hread'])] at hres
          cases hres
      · rename_i e hdigest
        refine ⟨htick, rfl, rfl, rfl, rfl, fun _ hc => absurd hc hno, ?_, fun _ => rfl⟩
        intro _ _ _ hok
        refine hfamiliar _ ?_ hok
        intro digest' hdigest'
        rw [hdigest] at hdigest'
        cases hdigest'

/-- **Specification of `prime`.** -/
theorem primed (host : Host) (s : ClipboardSync Desktop) :
    Primed host s (prime host (Desktop.access host) s) := by
  have htick := Desktop.later_tick s.clipboard
  unfold prime
  by_cases hoff : (!s.enabled && !s.filesEnabled) = true
  · rw [if_pos hoff]
    have hno : ¬ s.enabled = true := by
      intro hen
      simp [hen] at hoff
    exact ⟨.refl _, rfl, rfl, rfl, rfl, fun h => absurd h hno, fun h => absurd h hno, fun _ => rfl⟩
  · rw [if_neg hoff]
    have hgen : (Desktop.access host).generation s.clipboard =
        (s.clipboard.tick.count, s.clipboard.tick) := rfl
    simp only [hgen]
    by_cases hcounted : s.clipboard.counted = true
    · have hcount : s.clipboard.tick.count = some s.clipboard.tick.counter := by
        simp [Desktop.count, htick.counted, hcounted]
      rw [hcount, if_pos Option.isSome_some]
      refine ⟨htick, rfl, rfl, rfl, rfl, fun _ _ => rfl, ?_, fun _ => rfl⟩
      intro _ hfalse
      simp [hcounted] at hfalse
    · have hcount : s.clipboard.tick.count = none := by
        simp [Desktop.count, htick.counted, hcounted]
      have hfalse : s.clipboard.counted = false := by simpa using hcounted
      rw [hcount, if_neg (by decide)]
      have hlater := htick.trans (Desktop.later_tick s.clipboard.tick)
      rcases hread : (Desktop.access host).readFiles s.clipboard.tick with ⟨_ | _ | files, d⟩
      all_goals
        obtain ⟨hres, rfl⟩ := Prod.mk.inj hread
      · refine ⟨hlater, rfl, rfl, rfl, rfl, fun _ h => absurd h hcounted, ?_, fun _ => rfl⟩
        intro _ _ hok _
        rw [if_neg (by simp [hlater.filesFail, hok])] at hres
        cases hres
      · have hok : s.clipboard.tick.tick.weather.filesFail = false := by
          rcases hf : s.clipboard.tick.tick.weather.filesFail with _ | _
          · rfl
          · rw [if_pos hf] at hres
            cases hres
        have hp := primeContents_primed host
          { s with clipboard := s.clipboard.tick.tick, generation := none }
          (hlater.counted.trans hfalse) hok
        refine ⟨hlater.trans hp.later, hp.enabled, hp.filesEnabled, hp.nextOffer, hp.outgoing,
          fun _ h => absurd h hcounted, ?_, ?_⟩
        · intro hen _ _ hread'
          exact hp.remembered hen (hlater.counted.trans hfalse) hok (hlater.readFail.trans hread')
        · intro hfail
          exact hp.missed (hfail.imp hlater.filesFail.trans hlater.readFail.trans)
      · refine ⟨hlater, rfl, rfl, rfl, rfl, fun _ h => absurd h hcounted, ?_, fun _ => rfl⟩
        intro _ _ hok _
        rw [if_neg (by simp [hlater.filesFail, hok])] at hres
        exact Desktop.familiar_of_files (Except.ok.inj hres)

theorem setEnabled_off (h : s.enabled = true) : setEnabled host (Desktop.access host) false s =
    { s with enabled := false, outgoing := none, known := none } := by
  unfold setEnabled
  rw [if_neg (by simp [h])]
  rfl

theorem setEnabled_on (h : s.enabled = false) : setEnabled host (Desktop.access host) true s =
    prime host (Desktop.access host)
      { s with enabled := true, outgoing := none, known := none } := by
  unfold setEnabled
  rw [if_neg (by simp [h])]
  rfl

/-! ### Contents from the peer -/

/-- The desktop after a write that went through. -/
def written (host : Host) (c : Contents) (d : Desktop) : Desktop :=
  { d.tick with
    counter := d.tick.counter + 1
    contents := some (host.kept c)
    files := none
    foreign := true }

/-- What `onData` returns and leaves. -/
inductive Taken (host : Host) (header : ClipboardDataHeader) (bytes : List UInt8)
    (s : ClipboardSync Desktop) : Except String Unit → ClipboardSync Desktop → Prop
  | refused {e : String} : acceptData host header bytes s = .error e →
      Taken host header bytes s (.error e) s
  | failed {digest : List UInt8} {e : String} : acceptData host header bytes s = .ok digest →
      ((Desktop.access host).write ⟨header.format, bytes⟩ s.clipboard).1 = .error e →
      Taken host header bytes s (.error e)
        { s with clipboard := s.clipboard.tick, generation := none }
  | written {digest : List UInt8} : acceptData host header bytes s = .ok digest →
      Desktop.representable host ⟨header.format, bytes⟩ = .ok () →
      s.clipboard.weather.writeFail = false →
      Taken host header bytes s (.ok ())
        { s with
          clipboard := written host ⟨header.format, bytes⟩ s.clipboard
          generation := none
          known := some digest
          knownFiles := none
          outgoing := none }

/-- **Specification of `onData`.** -/
theorem taken (host : Host) (header : ClipboardDataHeader) (bytes : List UInt8) (s : ClipboardSync Desktop) :
    Taken host header bytes s (onData host (Desktop.access host) header bytes s).1
      (onData host (Desktop.access host) header bytes s).2 := by
  unfold onData
  rcases haccept : acceptData host header bytes s with e | digest
  · exact .refused haccept
  · rcases hwrite : (Desktop.access host).write ⟨header.format, bytes⟩ s.clipboard with
      ⟨e | u, d⟩
    · have hd : d = s.clipboard.tick := by
        simp only [Desktop.access, Desktop.write] at hwrite
        split at hwrite
        · exact (congrArg Prod.snd hwrite).symm
        · split at hwrite
          · exact (congrArg Prod.snd hwrite).symm
          · cases congrArg Prod.fst hwrite
      subst hd
      exact .failed haccept (congrArg Prod.fst hwrite)
    · simp only [Desktop.access, Desktop.write] at hwrite
      split at hwrite
      · cases congrArg Prod.fst hwrite
      · rename_i hrep
        split at hwrite
        · cases congrArg Prod.fst hwrite
        · rename_i hok
          obtain rfl : written host ⟨header.format, bytes⟩ s.clipboard = d :=
            congrArg Prod.snd hwrite
          refine .written haccept hrep ?_
          rw [← (Desktop.later_tick s.clipboard).writeFail]
          simpa using hok

theorem acceptData_digest {header : ClipboardDataHeader} {bytes digest : List UInt8}
    (h : acceptData host header bytes s = .ok digest) :
    s.enabled = true ∧ Contents.digest host ⟨header.format, bytes⟩ = .ok digest := by
  unfold acceptData at h
  by_cases hen : s.enabled = true
  · refine ⟨hen, ?_⟩
    by_cases hlarge : bytes.length > maxContents
    · simp [hen, hlarge, bind, Except.bind, throw, throwThe, MonadExceptOf.throw] at h
    · by_cases hformat : header.format ≠ .text ∧ header.format ≠ .png
      · simp [hen, hlarge, hformat, bind, Except.bind, throw, throwThe, MonadExceptOf.throw] at h
      · simpa [hen, hlarge, hformat, bind, Except.bind, pure, Except.pure] using h
  · simp [hen, bind, Except.bind, throw, throwThe, MonadExceptOf.throw] at h

theorem written_familiar (hkept : host.Keeps) {header : ClipboardDataHeader}
    {bytes digest : List UInt8} (h : acceptData host header bytes s = .ok digest) (d : Desktop) :
    (written host ⟨header.format, bytes⟩ d).Familiar host (some digest) := by
  intro c digest' _ hc hdigest'
  obtain rfl : host.kept ⟨header.format, bytes⟩ = c := Option.some.inj hc
  rw [hkept _ _ (acceptData_digest h).2] at hdigest'
  exact congrArg some (Except.ok.inj hdigest')

end ClipboardSync

end NebulaDesk
