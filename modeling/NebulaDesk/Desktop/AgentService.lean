/-
One service for each identity.

Whoever is past the service lock holds it, and only its holder touches the manifest: at most one
helper serves, its manifest stays while it does, an identity is never overwritten, and a
request is answered as running only by the helper whose capability is in the manifest.
-/
import NebulaDesk.Desktop.LocalAgent

namespace NebulaDesk

namespace LocalAgent

/-! ### What is said of a state and of a step -/

structure Exclusive (s : LocalAgent) : Prop where
  one : ∀ h h', (s.helpers h).pastLock = true → (s.helpers h').pastLock = true → h = h'
  endpoint : ∀ h own, s.helpers h = .serving own → s.manifest = some ⟨some own, false⟩

/-- A helper has answered the request of instance `i` as running: it serves, its capability,
which was asked for, is in the manifest, and so is the machine of the instance's identity. -/
def Answered (s : LocalAgent) (e : Event) (i : ℕ) (goal : Goal) (identity : Identity)
    (holder : Party) : Prop :=
  ∃ h own asked, e = .answer h i ∧ s.desktops i = .asking goal identity holder asked ∧
    s.helpers h = .serving own ∧ s.manifest = some ⟨some own, false⟩ ∧
    asked.capability = own.capability ∧ own.machineId = identity.machineId

structure Guarded (s : LocalAgent) (e : Event) (s' : LocalAgent) : Prop where
  /-- While a helper is past its lock, nobody else writes or removes the manifest. -/
  manifest : ∀ h, (s.helpers h).pastLock = true → s'.manifest ≠ s.manifest →
    e.actor = some (.helper h)
  identity : ∀ file, s.identity = some file →
    ∃ file', s'.identity = some file' ∧ file'.content = file.content
  answer : ∀ i goal identity holder, s'.desktops i = .replied goal identity holder true →
    s.desktops i = .replied goal identity holder true ∨ Answered s e i goal identity holder

/-! ### The invariant -/

structure Inv (s : LocalAgent) : Prop where
  helper : ∀ h, (s.helpers h).pastLock = true ↔ s.service = some (.helper h)
  desktop : ∀ i, (s.desktops i).holdsService = true ↔ s.service = some (.desktop i)
  linked : ∀ h own, s.helpers h = .linked own → s.manifest = some ⟨some own, true⟩
  serving : ∀ h own, s.helpers h = .serving own → s.manifest = some ⟨some own, false⟩

variable {s s' t : LocalAgent} {e : Event} {h i j : ℕ}

theorem inv_start {identity : Option (Linked Identity)} {manifest : Option (Linked ControlManifest)}
    {running : Bool} : (start identity manifest running).Inv where
  helper _ := ⟨nofun, nofun⟩
  desktop _ := ⟨nofun, nofun⟩
  linked _ _ h := nomatch h
  serving _ _ h := nomatch h

/-- What happens to the service lock when `p` takes a step; it has the lock before if `before`,
and afterwards if `after`. -/
inductive Lock (p : Party) (before after : Bool) (service service' : Option Party) : Prop
  | keep : service' = service → after = before → Lock p before after service service'
  | take : service = none → service' = some p → after = true → Lock p before after service service'
  | drop : service' = none → before = true → after = false → Lock p before after service service'
  | close : service' = (if service = some p then none else service) → after = false →
      Lock p before after service service'

theorem Lock.iff {p : Party} {before after : Bool} {service service' : Option Party}
    (h : Lock p before after service service') (hp : before = true ↔ service = some p) :
    after = true ↔ service' = some p := by
  cases h with
  | keep hs ha => rw [hs, ha, hp]
  | take _ hs ha => simp [hs, ha]
  | drop hs _ ha => simp [hs, ha]
  | close hs ha =>
    rw [hs, ha]
    split
    · simp
    · next hne => simp [hne]

theorem Lock.other {p q : Party} {before after : Bool} {service service' : Option Party}
    (h : Lock p before after service service') (hp : before = true ↔ service = some p)
    (hq : q ≠ p) : service' = some q ↔ service = some q := by
  cases h with
  | keep hs _ => rw [hs]
  | take hn hs _ =>
    rw [hn, hs]
    exact ⟨fun heq => absurd (Option.some.inj heq).symm hq, nofun⟩
  | drop hs hb _ =>
    rw [hs, hp.mp hb]
    exact ⟨nofun, fun heq => absurd (Option.some.inj heq).symm hq⟩
  | close hs _ =>
    rw [hs]
    split
    · next heq =>
      rw [heq]
      exact ⟨nofun, fun heq => absurd (Option.some.inj heq).symm hq⟩
    · exact Iff.rfl

/-- A step of instance `i`. -/
structure DesktopStep (s : LocalAgent) (e : Event) (i : ℕ) (s' : LocalAgent) : Prop where
  helpers : s'.helpers = s.helpers
  others : ∀ j, j ≠ i → s'.desktops j = s.desktops j
  service : Lock (.desktop i) (s.desktops i).holdsService (s'.desktops i).holdsService s.service
    s'.service
  manifest : s'.manifest = s.manifest ∨ (s.desktops i).holdsService = true
  identity : ∀ file, s.identity = some file →
    ∃ file', s'.identity = some file' ∧ file'.content = file.content
  answer : ∀ goal identity holder, s'.desktops i = .replied goal identity holder true →
    s.desktops i = .replied goal identity holder true ∨ Answered s e i goal identity holder

theorem DesktopStep.inv (hd : DesktopStep s e i s') (hs : s.Inv) : s'.Inv := by
  have hmanifest : ∀ h, (s.helpers h).pastLock = true → s'.manifest = s.manifest := by
    intro h hpast
    rcases hd.manifest with hsame | hholds
    · exact hsame
    · rw [hs.desktop, (hs.helper h).mp hpast] at hholds
      cases hholds
  refine ⟨?_, ?_, ?_, ?_⟩
  · intro h
    rw [hd.helpers, hs.helper,
      hd.service.other (hs.desktop i) (show Party.helper h ≠ Party.desktop i by nofun)]
  · intro j
    by_cases hj : j = i
    · subst hj
      exact hd.service.iff (hs.desktop j)
    · rw [hd.others j hj, hs.desktop,
        hd.service.other (hs.desktop i) fun heq => hj (Party.desktop.inj heq)]
  · intro h own hh
    rw [hd.helpers] at hh
    rw [hmanifest h (by rw [hh]; rfl)]
    exact hs.linked h own hh
  · intro h own hh
    rw [hd.helpers] at hh
    rw [hmanifest h (by rw [hh]; rfl)]
    exact hs.serving h own hh

theorem DesktopStep.guarded (hd : DesktopStep s e i s') (hs : s.Inv) : Guarded s e s' where
  manifest := by
    intro h hpast hne
    rcases hd.manifest with hsame | hholds
    · exact absurd hsame hne
    · rw [hs.desktop, (hs.helper h).mp hpast] at hholds
      cases hholds
  identity := hd.identity
  answer := by
    intro j goal identity holder hj
    by_cases hji : j = i
    · subst hji
      exact hd.answer goal identity holder hj
    · rw [hd.others j hji] at hj
      exact .inl hj

/-! ### The desktops -/

@[simp] theorem desktops_setDesktop {phase : Phase} : (s.setDesktop i phase).desktops i = phase :=
  Function.update_self ..

/-- The instance goes on; `t` differs from `s` at most in the lock of the operations. -/
theorem DesktopStep.next {phase : Phase} (hhelpers : t.helpers = s.helpers)
    (hdesktops : t.desktops = s.desktops) (hidentity : ∀ file, s.identity = some file →
      ∃ file', t.identity = some file' ∧ file'.content = file.content)
    (hservice :
      Lock (.desktop i) (s.desktops i).holdsService phase.holdsService s.service t.service)
    (hmanifest : t.manifest = s.manifest ∨ (s.desktops i).holdsService = true)
    (hanswer : ∀ goal identity holder, phase ≠ .replied goal identity holder true) :
    DesktopStep s e i (t.setDesktop i phase) where
  helpers := hhelpers
  others := by
    intro j hj
    show Function.update t.desktops i phase j = _
    rw [Function.update_of_ne hj, hdesktops]
  service := by
    rw [desktops_setDesktop]
    exact hservice
  manifest := hmanifest
  identity := hidentity
  answer := by
    intro goal identity holder h
    rw [desktops_setDesktop] at h
    exact absurd h (hanswer goal identity holder)

theorem kept (s : LocalAgent) : ∀ file, s.identity = some file →
    ∃ file', s.identity = some file' ∧ file'.content = file.content :=
  fun file hfile => ⟨file, hfile, rfl⟩

theorem unstaged (s : LocalAgent) : ∀ file, s.identity = some file →
    ∃ file', s.identity.map Linked.unstage = some file' ∧ file'.content = file.content :=
  fun file hfile => ⟨file.unstage, by rw [hfile]; rfl, rfl⟩

theorem DesktopStep.stay {phase : Phase} (hholds : phase.holdsService = (s.desktops i).holdsService)
    (hanswer : ∀ goal identity holder, phase ≠ .replied goal identity holder true) :
    DesktopStep s e i (s.setDesktop i phase) :=
  .next rfl rfl s.kept (.keep rfl hholds) (.inl rfl) hanswer

theorem DesktopStep.finish {result : Except Code LocalHost} :
    DesktopStep s e i (s.finish i result) :=
  .next rfl rfl s.kept (.close rfl rfl) (.inl rfl) nofun

theorem DesktopStep.refl : DesktopStep s e i s where
  helpers := rfl
  others _ _ := rfl
  service := .keep rfl rfl
  manifest := .inl rfl
  identity := s.kept
  answer _ _ _ h := .inl h

theorem desktopStep_requestFailed {goal : Goal} {identity : Identity} {holder : Party}
    (hholds : (s.desktops i).holdsService = false) :
    DesktopStep s e i (s.requestFailed i goal identity holder) := by
  unfold requestFailed
  cases goal with
  | snapshot | toggle => exact .finish
  | polling | stopping => exact .stay hholds.symm nofun

theorem desktopStep_go (hgo : s.go i = some s') : DesktopStep s e i s' := by
  unfold go at hgo
  cases hphase : s.desktops i with
  | idle | ended | asking | enrollRequesting | spawning =>
    rw [hphase] at hgo
    cases hgo
  | snapshotReading =>
    simp only [hphase] at hgo
    split at hgo
    · cases hgo
      exact .finish
    · cases hgo
      exact .stay (by rw [hphase]; rfl) nofun
    · split at hgo <;> cases hgo
      · exact .stay (by rw [hphase]; rfl) nofun
      · exact .finish
  | snapshotMarking identity =>
    simp only [hphase] at hgo
    split at hgo
    · cases hgo
      exact .finish
    · split at hgo <;> cases hgo
      · exact .finish
      · exact .stay (by rw [hphase]; rfl) nofun
  | probing goal identity =>
    simp only [hphase] at hgo
    split at hgo
    · next hfree =>
      cases hgo
      exact .next rfl rfl s.kept (.take hfree rfl rfl) (.inl rfl) nofun
    · split at hgo <;> cases hgo
      · exact .refl
      · exact .stay (by rw [hphase]; rfl) nofun
  | probed goal identity =>
    -- The probe drops the lock; for a snapshot the operation ends with it.
    simp only [hphase] at hgo
    split at hgo <;> cases hgo
    · exact .next rfl rfl s.kept (.drop (by simp [close]) (by rw [hphase]; rfl) rfl) (.inl rfl)
        nofun
    all_goals exact .next rfl rfl s.kept (.drop rfl (by rw [hphase]; rfl) rfl) (.inl rfl) nofun
  | requesting goal identity holder =>
    simp only [hphase] at hgo
    have hholds : (s.desktops i).holdsService = false := by rw [hphase]; rfl
    split at hgo
    · split at hgo <;> cases hgo
      · exact .stay (by rw [hphase]; rfl) nofun
      · exact desktopStep_requestFailed hholds
    · cases hgo
      exact desktopStep_requestFailed hholds
  | replied goal identity holder running =>
    simp only [hphase] at hgo
    split at hgo
    · cases hgo
      exact .finish
    · cases hgo
      exact .stay (by rw [hphase]; rfl) nofun
    · cases hgo
      exact .stay (by rw [hphase]; rfl) nofun
    · split at hgo <;> cases hgo <;> exact .stay (by rw [hphase]; rfl) nofun
    · cases hgo
  | polling h identity | enrollLooking | enrollLookingAgain | enrollMarking =>
    simp only [hphase] at hgo
    split at hgo <;> cases hgo
    · exact .finish
    · exact .stay (by rw [hphase]; rfl) nofun
  | enrollLocking | enableLocking =>
    simp only [hphase] at hgo
    split at hgo <;> cases hgo
    · exact .next rfl rfl s.kept (.keep rfl (by rw [hphase]; rfl)) (.inl rfl) nofun
    · exact .finish
  | enrollServing | cleaning =>
    simp only [hphase] at hgo
    split at hgo
    · next hfree =>
      cases hgo
      exact .next rfl rfl s.kept (.take hfree rfl rfl) (.inl rfl) nofun
    · cases hgo
      exact .finish
  | enrollLinking identity =>
    simp only [hphase] at hgo
    split at hgo
    · cases hgo
      exact .finish
    · next hnone =>
      -- There is no file to be overwritten.
      cases hgo
      exact .next rfl rfl (fun file hfile => absurd (by rw [hfile]; rfl) hnone)
        (.keep rfl (by rw [hphase]; rfl)) (.inl rfl) nofun
  | enrollLinked =>
    simp only [hphase] at hgo
    cases hgo
    exact .next rfl rfl s.unstaged (.keep rfl (by rw [hphase]; rfl)) (.inl rfl) nofun
  | enrollReleasing =>
    simp only [hphase] at hgo
    cases hgo
    exact .next rfl rfl s.kept (.close rfl rfl) (.inl rfl) nofun
  | enableReading enabled =>
    simp only [hphase] at hgo
    split at hgo
    · cases hgo
      exact .finish
    · split at hgo <;> cases hgo
      · exact .finish
      · exact .stay (by rw [hphase]; rfl) nofun
    · split at hgo
      · cases hgo
        exact .finish
      · split at hgo <;> cases hgo
        · exact .finish
        · exact .stay (by rw [hphase]; rfl) nofun
  | enableMarking enabled identity =>
    simp only [hphase] at hgo
    split at hgo <;> cases hgo
    · exact .finish
    · exact .stay (by rw [hphase]; rfl) nofun
  | removing enabled identity =>
    simp only [hphase] at hgo
    cases hgo
    exact .next rfl rfl s.kept (.keep rfl (by rw [hphase]; rfl)) (.inr (by rw [hphase]; rfl)) nofun
  | cleaned enabled identity =>
    simp only [hphase] at hgo
    cases hgo
    cases enabled <;>
      exact .next rfl rfl s.kept (.drop rfl (by rw [hphase]; rfl) rfl) (.inl rfl) nofun

theorem desktopStep_fail (hfail : s.fail i = some s') : DesktopStep s e i s' := by
  unfold fail at hfail
  split at hfail
  case h_5 | h_6 =>
    next goal identity holder hphase =>
    cases hfail
    exact desktopStep_requestFailed (by rw [hphase]; rfl)
  case h_9 =>
    cases hfail
    exact .next rfl rfl s.unstaged (.close rfl rfl) (.inl rfl) nofun
  case h_1 | h_2 | h_3 | h_4 => cases hfail
  all_goals
    cases hfail
    exact .finish

/-- `respond` is correct only if the helper has the manifest it was asked with. -/
theorem desktopStep_answer (hs : s.Inv) (ha : s.answer h i = some s') :
    DesktopStep s (.answer h i) i s' := by
  unfold answer at ha
  split at ha
  case h_2 => cases ha
  next own goal identity holder asked hown hphase =>
  have hholds : (s.desktops i).holdsService = false := by rw [hphase]; rfl
  split at ha
  case isFalse => cases ha
  split at ha <;> cases ha
  · next hcapability =>
    refine ⟨rfl, ?_, ?_, .inl rfl, s.kept, ?_⟩
    · intro j hj
      exact Function.update_of_ne hj ..
    · rw [desktops_setDesktop]
      exact .keep rfl hholds.symm
    · intro goal' identity' holder' hreplied
      rw [desktops_setDesktop] at hreplied
      obtain ⟨rfl, rfl, rfl, -⟩ := Phase.replied.inj hreplied
      exact .inr ⟨h, own, asked, rfl, hphase, hown, hs.serving h own hown, hcapability⟩
  · exact desktopStep_requestFailed hholds

/-! ### The helpers -/

/-- A step of helper `h`. -/
structure HelperStep (s : LocalAgent) (h : ℕ) (s' : LocalAgent) : Prop where
  desktops : s'.desktops = s.desktops
  others : ∀ g, g ≠ h → s'.helpers g = s.helpers g
  service : Lock (.helper h) (s.helpers h).pastLock (s'.helpers h).pastLock s.service s'.service
  manifest : s'.manifest = s.manifest ∨ (s.helpers h).pastLock = true
  identity : s'.identity = s.identity
  linked : ∀ own, s'.helpers h = .linked own → s'.manifest = some ⟨some own, true⟩
  serving : ∀ own, s'.helpers h = .serving own → s'.manifest = some ⟨some own, false⟩

theorem Inv.only {g : ℕ} (hs : s.Inv) (hh : (s.helpers h).pastLock = true)
    (hg : (s.helpers g).pastLock = true) : g = h := by
  have heq := (hs.helper g).mp hg
  rw [(hs.helper h).mp hh] at heq
  exact (Party.helper.inj (Option.some.inj heq)).symm

theorem HelperStep.manifest_of_other {g : ℕ} (hh : HelperStep s h s') (hs : s.Inv) (hg : g ≠ h)
    (hpast : (s.helpers g).pastLock = true) : s'.manifest = s.manifest := by
  rcases hh.manifest with hsame | hown
  · exact hsame
  · exact absurd (hs.only hown hpast) hg

theorem HelperStep.inv (hh : HelperStep s h s') (hs : s.Inv) : s'.Inv := by
  refine ⟨?_, ?_, ?_, ?_⟩
  · intro g
    by_cases hg : g = h
    · subst hg
      exact hh.service.iff (hs.helper g)
    · rw [hh.others g hg, hs.helper,
        hh.service.other (hs.helper h) fun heq => hg (Party.helper.inj heq)]
  · intro i
    rw [hh.desktops, hs.desktop,
      hh.service.other (hs.helper h) (show Party.desktop i ≠ Party.helper h by nofun)]
  · intro g own hlinked
    by_cases hg : g = h
    · subst hg
      exact hh.linked own hlinked
    · rw [hh.others g hg] at hlinked
      rw [hh.manifest_of_other hs hg (by rw [hlinked]; rfl)]
      exact hs.linked g own hlinked
  · intro g own hserving
    by_cases hg : g = h
    · subst hg
      exact hh.serving own hserving
    · rw [hh.others g hg] at hserving
      rw [hh.manifest_of_other hs hg (by rw [hserving]; rfl)]
      exact hs.serving g own hserving

theorem HelperStep.guarded (hh : HelperStep s h s') (hs : s.Inv)
    (hactor : e.actor = some (.helper h)) : Guarded s e s' where
  manifest := by
    intro g hpast hne
    by_cases hg : g = h
    · rw [hg]
      exact hactor
    · exact absurd (hh.manifest_of_other hs hg hpast) hne
  identity file hfile := ⟨file, hh.identity.trans hfile, rfl⟩
  answer i goal identity holder hi := by
    rw [hh.desktops] at hi
    exact .inl hi

variable {phase : HelperPhase}

@[simp] theorem helpers_setHelper : (s.setHelper h phase).helpers h = phase :=
  Function.update_self ..

/-- The helper goes on; `t` differs from `s` at most in the lock and in the manifest. -/
theorem HelperStep.next (hhelpers : t.helpers = s.helpers)
    (hdesktops : t.desktops = s.desktops) (hidentity : t.identity = s.identity)
    (hservice : Lock (.helper h) (s.helpers h).pastLock phase.pastLock s.service t.service)
    (hmanifest : t.manifest = s.manifest ∨ (s.helpers h).pastLock = true)
    (hlinked : ∀ own, phase = .linked own → t.manifest = some ⟨some own, true⟩)
    (hserving : ∀ own, phase = .serving own → t.manifest = some ⟨some own, false⟩) :
    HelperStep s h (t.setHelper h phase) where
  desktops := hdesktops
  others := by
    intro g hg
    show Function.update t.helpers h phase g = _
    rw [Function.update_of_ne hg, hhelpers]
  service := by
    rw [helpers_setHelper]
    exact hservice
  manifest := hmanifest
  identity := hidentity
  linked own := by
    rw [helpers_setHelper]
    exact hlinked own
  serving own := by
    rw [helpers_setHelper]
    exact hserving own

theorem HelperStep.stay (hpast : phase.pastLock = (s.helpers h).pastLock)
    (hlinked : ∀ own, phase ≠ .linked own) (hserving : ∀ own, phase ≠ .serving own) :
    HelperStep s h (s.setHelper h phase) :=
  .next rfl rfl rfl (.keep rfl hpast) (.inl rfl) (fun own hown => absurd hown (hlinked own))
    fun own hown => absurd hown (hserving own)

theorem HelperStep.exit : HelperStep s h (s.exit h) :=
  .next rfl rfl rfl (.close rfl rfl) (.inl rfl) nofun nofun

theorem helperStep_helperGo (hs : s.Inv) (hgo : s.helperGo h = some s') : HelperStep s h s' := by
  unfold helperGo at hgo
  cases hphase : s.helpers h with
  | absent | cleared | refused | exited =>
    rw [hphase] at hgo
    cases hgo
  | starting =>
    simp only [hphase] at hgo
    split at hgo <;> cases hgo
    · next hfree => exact .next rfl rfl rfl (.take hfree rfl rfl) (.inl rfl) nofun nofun
    · exact .stay (by rw [hphase]; rfl) nofun nofun
  | locked =>
    simp only [hphase] at hgo
    split at hgo
    · split at hgo <;> cases hgo
      · exact .stay (by rw [hphase]; rfl) nofun nofun
      · exact .exit
    · cases hgo
      exact .exit
  | checked identity | finishing =>
    simp only [hphase] at hgo
    cases hgo
    exact .next rfl rfl rfl (.keep rfl (by rw [hphase]; rfl)) (.inr (by rw [hphase]; rfl)) nofun
      nofun
  | bound manifest =>
    simp only [hphase] at hgo
    split at hgo <;> cases hgo
    · exact .exit
    · refine .next rfl rfl rfl (.keep rfl (by rw [hphase]; rfl)) (.inr (by rw [hphase]; rfl)) ?_
        nofun
      intro own hown
      cases hown
      rfl
  | linked manifest =>
    simp only [hphase] at hgo
    cases hgo
    refine .next rfl rfl rfl (.keep rfl (by rw [hphase]; rfl)) (.inr (by rw [hphase]; rfl)) nofun ?_
    intro own hown
    cases hown
    show s.manifest.map Linked.unstage = _
    rw [hs.linked h manifest hphase]
    rfl
  | serving =>
    simp only [hphase] at hgo
    cases hgo
    exact .stay (by rw [hphase]; rfl) nofun nofun
  | returned =>
    simp only [hphase] at hgo
    cases hgo
    exact .exit

theorem helperStep_helperFail (hfail : s.helperFail h = some s') : HelperStep s h s' := by
  unfold helperFail at hfail
  split at hfail
  case h_6 =>
    next hphase =>
    cases hfail
    exact .next rfl rfl rfl (.close rfl rfl) (.inr (by rw [hphase]; rfl)) nofun nofun
  case h_7 =>
    next hphase =>
    cases hfail
    exact .stay (by rw [hphase]; rfl) nofun nofun
  case h_8 => cases hfail
  all_goals
    cases hfail
    exact .exit

/-! ### All steps -/

/-- A step is that of an instance, that of a helper, the start of a helper by an instance, or
that of a legacy agent. -/
theorem step_cases (hs : s.Inv) (he : s.step e = some s') :
    (∃ i, DesktopStep s e i s') ∨ (∃ h, e.actor = some (.helper h) ∧ HelperStep s h s') ∨
      (∃ i h t, DesktopStep s e i t ∧ HelperStep t h s' ∧ s'.manifest = s.manifest) ∨
      ∃ running, s' = { s with running := running } := by
  cases e with
  | snapshot i | enroll i | setEnabled i =>
    simp only [step] at he
    split at he <;> cases he
    next hresting =>
    refine .inl ⟨i, .stay ?_ nofun⟩
    cases hphase : s.desktops i <;> simp [hphase, Phase.resting] at hresting <;> rfl
  | go i => exact .inl ⟨i, desktopStep_go he⟩
  | fail i => exact .inl ⟨i, desktopStep_fail he⟩
  | enrolled i machineId =>
    simp only [step] at he
    split at he <;> cases he
    next hphase => exact .inl ⟨i, .stay (by rw [hphase]; rfl) nofun⟩
  | spawned i h =>
    simp only [step] at he
    split at he <;> cases he
    next identity hphase habsent =>
    refine .inr (.inr (.inl ⟨i, h, s.setDesktop i (.polling h identity),
      .stay (by rw [hphase]; rfl) nofun, .stay ?_ nofun nofun, rfl⟩))
    show HelperPhase.starting.pastLock = (s.helpers h).pastLock
    rw [habsent]
    rfl
  | expire i =>
    simp only [step] at he
    split at he <;> cases he <;> exact .inl ⟨i, .finish⟩
  | crash i =>
    cases he
    exact .inl ⟨i, .next rfl rfl s.kept (.close rfl rfl) (.inl rfl) nofun⟩
  | launch h =>
    simp only [step] at he
    split at he <;> cases he
    next habsent =>
    exact .inr (.inl ⟨h, rfl, .stay (by rw [habsent]; rfl) nofun nofun⟩)
  | helperGo h => exact .inr (.inl ⟨h, rfl, helperStep_helperGo hs he⟩)
  | bound h port capability =>
    simp only [step] at he
    split at he <;> cases he
    next identity hphase =>
    exact .inr (.inl ⟨h, rfl, .stay (by rw [hphase]; rfl) nofun nofun⟩)
  | helperFail h => exact .inr (.inl ⟨h, rfl, helperStep_helperFail he⟩)
  | helperCrash h =>
    simp only [step] at he
    split at he <;> cases he
    exact .inr (.inl ⟨h, rfl, .exit⟩)
  | answer h i => exact .inl ⟨i, desktopStep_answer hs he⟩
  | legacy running =>
    cases he
    exact .inr (.inr (.inr ⟨running, rfl⟩))

theorem Inv.step (hs : s.Inv) (he : s.step e = some s') : s'.Inv := by
  rcases step_cases hs he with ⟨i, hd⟩ | ⟨h, -, hh⟩ | ⟨i, h, t, hd, hh, -⟩ | ⟨running, rfl⟩
  · exact hd.inv hs
  · exact hh.inv hs
  · exact hh.inv (hd.inv hs)
  · exact { hs with }

theorem Inv.guarded (hs : s.Inv) (he : s.step e = some s') : Guarded s e s' := by
  rcases step_cases hs he with ⟨i, hd⟩ | ⟨h, hactor, hh⟩ | ⟨i, h, t, hd, hh, hsame⟩ | ⟨running, rfl⟩
  · exact hd.guarded hs
  · exact hh.guarded hs hactor
  · have hg : Guarded s e t := hd.guarded hs
    refine ⟨fun _ _ hne => absurd hsame hne, ?_, ?_⟩
    · intro file hfile
      rw [hh.identity]
      exact hg.identity file hfile
    · intro j goal identity holder hj
      rw [hh.desktops] at hj
      exact hg.answer j goal identity holder hj
  · exact ⟨fun _ _ hne => absurd rfl hne, s.kept, fun _ _ _ _ hi => .inl hi⟩

theorem Inv.exclusive (hs : s.Inv) : s.Exclusive where
  one _ _ hh hh' := hs.only hh' hh
  endpoint := hs.serving

theorem reach_inv {identity : Option (Linked Identity)}
    {manifest : Option (Linked ControlManifest)} {running : Bool}
    (hr : Runs.Reach LocalAgent.step (start identity manifest running) s) : s.Inv :=
  hr.invariant inv_start fun _ _ _ hs he => hs.step he

/-! ### Every run -/

/-- At most one helper is past its lock, and its manifest is there while it serves.  No step of
anybody else changes the manifest, and no step the identity that is there; only the
helper of the manifest answers a request as running. -/
theorem one_service {identity : Option (Linked Identity)}
    {manifest : Option (Linked ControlManifest)} {running : Bool}
    (hr : Runs.Reach LocalAgent.step (start identity manifest running) s) :
    s.Exclusive ∧ ∀ e s', s.step e = some s' → Guarded s e s' :=
  ⟨(reach_inv hr).exclusive, fun _ _ he => (reach_inv hr).guarded he⟩

/-- Machine `5` is enrolled. -/
def sampleEnrolled : LocalAgent := start (some ⟨some ⟨5, true, true⟩, false⟩) none false

/-- Instance `0` turns the agent on. -/
def sampleTurnOn : List Event :=
  .setEnabled 0 true :: List.replicate 8 (Event.go 0) ++ [Event.spawned 0 1]

def sampleAsked : List Event :=
  sampleTurnOn ++ List.replicate 3 (Event.helperGo 1) ++ [Event.bound 1 9 42] ++
    List.replicate 2 (Event.helperGo 1) ++ List.replicate 3 (Event.go 0)

theorem one_service_asked : ∃ s s', Runs.Reach LocalAgent.step sampleEnrolled s ∧
    (∃ own, s.helpers 1 = .serving own) ∧ s.step (.answer 1 0) = some s' ∧ s.Exclusive ∧
    Guarded s (.answer 1 0) s' := by
  have hrun : (Runs.tryRun LocalAgent.step sampleEnrolled sampleAsked).map (fun s =>
      decide (s.helpers 1 = .serving ⟨9, 42, 5⟩) && (s.step (.answer 1 0)).isSome) = some true := by
    decide +kernel
  obtain ⟨s, htry, hs⟩ := Option.map_eq_some_iff.mp hrun
  obtain ⟨hserving, hanswer⟩ := Bool.and_eq_true_iff.mp hs
  obtain ⟨s', he⟩ := Option.isSome_iff_exists.mp hanswer
  obtain ⟨hexclusive, hguarded⟩ := one_service (Runs.reach_of_tryRun .init htry)
  exact ⟨s, s', Runs.reach_of_tryRun .init htry, ⟨_, of_decide_eq_true hserving⟩, he, hexclusive,
    hguarded _ s' he⟩

end LocalAgent

end NebulaDesk
