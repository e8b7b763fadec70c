/-
Who is told that the service lock is held.

A desktop asks whether a helper serves by taking the lock of the service and dropping it, and
whoever tries the lock in between takes the probe for a service: a helper that starts ends, a
snapshot reports a detached agent.  In the runs in which nobody tries the lock while a desktop
has it, whoever is told that it is held is told so of a helper.
-/
import NebulaDesk.Desktop.AgentService

namespace NebulaDesk

namespace LocalAgent

/-! ### Calm runs -/

/-- The operation ends with what the probe finds. -/
def Goal.reports : Goal → Bool
  | .snapshot | .toggle _ => true
  | .polling _ | .stopping => false

/-- The step tries the service lock, and what it finds is told. -/
def tries (s : LocalAgent) : Event → Bool
  | .helperGo h => s.helpers h = .starting
  | .go i =>
    match s.desktops i with
    | .probing goal _ => goal.reports
    | .cleaning .. | .enrollServing => true
    | _ => false
  | _ => false

/-- A snapshot looks for the marker of a legacy agent. -/
def looks (s : LocalAgent) : Event → Bool
  | .go i =>
    match s.desktops i with
    | .snapshotMarking _ => true
    | _ => false
  | _ => false

/-- The service lock is tried only while no desktop has it, and there is no legacy marker when
a snapshot looks for it. -/
def calm (s : LocalAgent) (e : Event) : Bool :=
  (!s.tries e || s.service.all Party.isHelper) && (!s.looks e || !s.running)

def stepCalm (s : LocalAgent) (e : Event) : Option LocalAgent := if s.calm e then s.step e else none

/-- Whoever is told that the service lock is held has met a helper. -/
structure Unobservable (s : LocalAgent) : Prop where
  /-- A helper that did not get the lock. -/
  refused : ∀ h holder, s.helpers h = .refused holder → ∃ g, holder = .helper g
  /-- A snapshot that reports a detached agent. -/
  detached : ∀ i host holder, s.desktops i = .ended (.ok host) →
    host.error = some (.detached holder) → ∃ g, holder = some (.helper g)
  control : ∀ i holder, s.desktops i = .ended (.error (.agentControl holder)) →
    ∃ g, holder = .helper g
  busy : ∀ i holder, s.desktops i = .ended (.error (.agentBusy (some holder))) →
    ∃ g, holder = .helper g

/-! ### Who is blamed -/

/-- Whom an operation takes, or has taken, for the holder of the service lock. -/
def Phase.blamed : Phase → Option (Option Party)
  | .requesting goal _ holder | .asking goal _ holder _ | .replied goal _ holder _ =>
    if goal.reports then some (some holder) else none
  | .ended (.ok ⟨_, _, _, some (.detached holder)⟩) => some holder
  | .ended (.error (.agentControl holder)) | .ended (.error (.agentBusy (some holder))) =>
    some (some holder)
  | _ => none

structure Blameless (s : LocalAgent) : Prop where
  desktop : ∀ i holder, (s.desktops i).blamed = some holder → ∃ g, holder = some (.helper g)
  helper : ∀ h holder, s.helpers h = .refused holder → ∃ g, holder = .helper g

variable {s s' t : LocalAgent} {e : Event} {h i : ℕ}

theorem Blameless.unobservable (hs : s.Blameless) : s.Unobservable where
  refused := hs.helper
  detached := by
    intro i host holder hended herror
    refine hs.desktop i holder ?_
    obtain ⟨enrolled, machineId, running, error⟩ := host
    cases herror
    rw [hended]
    rfl
  control := by
    intro i holder hended
    obtain ⟨g, hg⟩ := hs.desktop i (some holder) (by rw [hended]; rfl)
    exact ⟨g, Option.some.inj hg⟩
  busy := by
    intro i holder hended
    obtain ⟨g, hg⟩ := hs.desktop i (some holder) (by rw [hended]; rfl)
    exact ⟨g, Option.some.inj hg⟩

/-- An instance blames nobody after its step, or whom it blamed before, or the one who has the
lock that it has tried. -/
inductive Blames (s : LocalAgent) (e : Event) (before after : Phase) : Prop
  | nobody : after.blamed = none → Blames s e before after
  | same : after.blamed = before.blamed → Blames s e before after
  | tried (holder : Party) : s.tries e = true → s.service = some holder →
      after.blamed = some (some holder) → Blames s e before after
  | legacy : s.looks e = true → s.running = true → Blames s e before after

variable {holder : Party}

theorem holder_of_calm (hcalm : s.calm e = true) (htries : s.tries e = true)
    (hservice : s.service = some holder) : ∃ g, holder = .helper g := by
  have hhelper : holder.isHelper = true := by
    simpa [calm, htries, hservice] using (Bool.and_eq_true_iff.mp hcalm).1
  cases holder with
  | desktop => cases hhelper
  | helper g => exact ⟨g, rfl⟩

theorem Blames.helper {before after : Phase} (hb : Blames s e before after)
    (hcalm : s.calm e = true)
    (hbefore : ∀ holder, before.blamed = some holder → ∃ g, holder = some (.helper g)) :
    ∀ holder, after.blamed = some holder → ∃ g, holder = some (.helper g) := by
  intro holder hafter
  cases hb with
  | nobody hnone =>
    rw [hnone] at hafter
    cases hafter
  | same hsame => exact hbefore holder (hsame ▸ hafter)
  | tried found htries hservice hfound =>
    rw [hfound] at hafter
    obtain ⟨g, rfl⟩ := holder_of_calm hcalm htries hservice
    exact ⟨g, (Option.some.inj hafter).symm⟩
  | legacy hlooks hrunning => simp [calm, hlooks, hrunning] at hcalm

@[simp] theorem desktops_finish {result : Except Code LocalHost} :
    (s.finish i result).desktops i = .ended result :=
  Function.update_self ..

theorem blamed_requestFailed {goal : Goal} {identity : Identity} :
    ((s.requestFailed i goal identity holder).desktops i).blamed =
      if goal.reports then some (some holder) else none := by
  cases goal with
  | snapshot | toggle =>
    show ((s.finish i _).desktops i).blamed = _
    rw [desktops_finish]
    rfl
  | polling | stopping =>
    show ((s.setDesktop i _).desktops i).blamed = _
    rw [desktops_setDesktop]
    rfl

theorem blames_set {before phase : Phase} (hnone : phase.blamed = none) :
    Blames s e before ((t.setDesktop i phase).desktops i) :=
  .nobody (by rw [desktops_setDesktop]; exact hnone)

theorem blames_finish {before : Phase} {result : Except Code LocalHost}
    (hnone : (Phase.ended result).blamed = none) :
    Blames s e before ((t.finish i result).desktops i) :=
  .nobody (by rw [desktops_finish]; exact hnone)

theorem blames_go (hgo : s.go i = some s') : Blames s (.go i) (s.desktops i) (s'.desktops i) := by
  unfold go at hgo
  cases hphase : s.desktops i with
  | idle | ended | asking | enrollRequesting | spawning =>
    rw [hphase] at hgo
    cases hgo
  | snapshotReading =>
    simp only [hphase] at hgo
    split at hgo
    · cases hgo
      exact blames_finish rfl
    · cases hgo
      exact blames_set rfl
    · split at hgo <;> cases hgo
      · exact blames_set rfl
      · exact blames_finish rfl
  | snapshotMarking identity =>
    simp only [hphase] at hgo
    split at hgo
    · next hrunning => exact .legacy (by rw [looks, hphase]) hrunning
    · split at hgo <;> cases hgo
      · exact blames_finish rfl
      · exact blames_set rfl
  | probing goal identity =>
    simp only [hphase] at hgo
    split at hgo
    · cases hgo
      exact blames_set rfl
    · next holder hheld =>
      split at hgo <;> cases hgo
      · exact .same (by rw [hphase])
      · -- Only an operation that tells what it finds keeps the holder.
        cases hreports : goal.reports with
        | false => exact blames_set (by simp [Phase.blamed, hreports])
        | true =>
          refine .tried holder ?_ hheld ?_
          · simp only [tries, hphase, hreports]
          · rw [desktops_setDesktop]
            simp [Phase.blamed, hreports]
  | probed goal identity =>
    simp only [hphase] at hgo
    split at hgo <;> cases hgo
    · exact blames_finish rfl
    all_goals exact blames_set rfl
  | requesting goal identity holder =>
    simp only [hphase] at hgo
    split at hgo
    · split at hgo <;> cases hgo
      · exact .same (by rw [desktops_setDesktop]; rfl)
      · exact .same blamed_requestFailed
    · cases hgo
      exact .same blamed_requestFailed
  | replied goal identity holder running =>
    simp only [hphase] at hgo
    split at hgo
    · cases hgo
      exact blames_finish rfl
    · cases hgo
      exact blames_set rfl
    · cases hgo
      exact blames_set rfl
    · split at hgo <;> cases hgo <;> exact blames_set rfl
    · cases hgo
  | polling | enrollLooking | enrollLookingAgain | enrollMarking | enrollLinking | enableMarking =>
    simp only [hphase] at hgo
    split at hgo <;> cases hgo
    · exact blames_finish rfl
    · exact blames_set rfl
  | enrollLocking | enableLocking =>
    simp only [hphase] at hgo
    split at hgo <;> cases hgo
    · exact blames_set rfl
    · exact blames_finish rfl
  | enrollServing | cleaning =>
    simp only [hphase] at hgo
    split at hgo
    · cases hgo
      exact blames_set rfl
    · next holder hheld =>
      cases hgo
      refine .tried holder (by rw [tries, hphase]) hheld ?_
      rw [desktops_finish]
      rfl
  | enrollLinked | enrollReleasing | removing =>
    simp only [hphase] at hgo
    cases hgo
    exact blames_set rfl
  | enableReading enabled =>
    simp only [hphase] at hgo
    split at hgo
    · cases hgo
      exact blames_finish rfl
    · split at hgo <;> cases hgo
      · exact blames_finish rfl
      · exact blames_set rfl
    · split at hgo
      · cases hgo
        exact blames_finish rfl
      · split at hgo <;> cases hgo
        · exact blames_finish rfl
        · exact blames_set rfl
  | cleaned enabled identity =>
    simp only [hphase] at hgo
    cases hgo
    cases enabled <;> exact blames_set rfl

theorem blames_fail (hfail : s.fail i = some s') : Blames s e (s.desktops i) (s'.desktops i) := by
  unfold fail at hfail
  split at hfail
  case h_5 | h_6 =>
    next hphase =>
    cases hfail
    rw [hphase]
    exact .same blamed_requestFailed
  case h_1 | h_2 | h_3 | h_4 => cases hfail
  all_goals
    cases hfail
    exact blames_finish rfl

theorem blames_answer (ha : s.answer h i = some s') :
    Blames s e (s.desktops i) (s'.desktops i) := by
  unfold answer at ha
  split at ha
  case h_2 => cases ha
  next hphase =>
  rw [hphase]
  split at ha
  case isFalse => cases ha
  split at ha <;> cases ha
  · exact .same (by rw [desktops_setDesktop]; rfl)
  · exact .same blamed_requestFailed

/-! ### A step -/

theorem Blameless.desktopStep (hs : s.Blameless) (hcalm : s.calm e = true)
    (hd : DesktopStep s e i s') (hb : Blames s e (s.desktops i) (s'.desktops i)) :
    s'.Blameless where
  desktop := by
    intro j
    by_cases hj : j = i
    · subst hj
      exact hb.helper hcalm (hs.desktop j)
    · rw [hd.others j hj]
      exact hs.desktop j
  helper := by
    rw [hd.helpers]
    exact hs.helper

theorem Blameless.helperStep (hs : s.Blameless) (hh : HelperStep s h s')
    (hrefused : ∀ holder, s'.helpers h = .refused holder → ∃ g, holder = .helper g) :
    s'.Blameless where
  desktop := by
    rw [hh.desktops]
    exact hs.desktop
  helper := by
    intro g
    by_cases hg : g = h
    · subst hg
      exact hrefused
    · rw [hh.others g hg]
      exact hs.helper g

theorem not_refused_set {phase : HelperPhase} (hne : phase ≠ .refused holder) :
    (t.setHelper h phase).helpers h ≠ .refused holder := by
  rw [helpers_setHelper]
  exact hne

theorem not_refused_exit : (t.exit h).helpers h ≠ .refused holder :=
  not_refused_set nofun

theorem refused_of_helperGo (hgo : s.helperGo h = some s')
    (hrefused : s'.helpers h = .refused holder) :
    s.helpers h = .starting ∧ s.service = some holder := by
  unfold helperGo at hgo
  cases hphase : s.helpers h with
  | absent | cleared | refused | exited =>
    rw [hphase] at hgo
    cases hgo
  | starting =>
    simp only [hphase] at hgo
    split at hgo <;> cases hgo
    · exact absurd hrefused (not_refused_set nofun)
    · next found hheld =>
      rw [helpers_setHelper] at hrefused
      cases hrefused
      exact ⟨rfl, hheld⟩
  | locked =>
    simp only [hphase] at hgo
    split at hgo
    · split at hgo <;> cases hgo
      · exact absurd hrefused (not_refused_set nofun)
      · exact absurd hrefused not_refused_exit
    · cases hgo
      exact absurd hrefused not_refused_exit
  | checked | linked | serving | finishing =>
    simp only [hphase] at hgo
    cases hgo
    exact absurd hrefused (not_refused_set nofun)
  | bound manifest =>
    simp only [hphase] at hgo
    split at hgo <;> cases hgo
    · exact absurd hrefused not_refused_exit
    · exact absurd hrefused (not_refused_set nofun)
  | returned =>
    simp only [hphase] at hgo
    cases hgo
    exact absurd hrefused not_refused_exit

theorem not_refused_of_helperFail (hfail : s.helperFail h = some s') :
    s'.helpers h ≠ .refused holder := by
  unfold helperFail at hfail
  split at hfail
  case h_7 =>
    cases hfail
    exact not_refused_set nofun
  case h_8 => cases hfail
  all_goals
    cases hfail
    exact not_refused_exit

theorem Blameless.step (hs : s.Blameless) (hinv : s.Inv) (hcalm : s.calm e = true)
    (he : s.step e = some s') : s'.Blameless := by
  cases e with
  | snapshot i | enroll i | setEnabled i =>
    simp only [LocalAgent.step] at he
    split at he <;> cases he
    next hresting =>
    refine hs.desktopStep hcalm (.stay ?_ (by simp)) (blames_set rfl)
    cases hphase : s.desktops i <;> simp [hphase, Phase.resting] at hresting <;> rfl
  | go i => exact hs.desktopStep hcalm (desktopStep_go he) (blames_go he)
  | fail i => exact hs.desktopStep hcalm (desktopStep_fail he) (blames_fail he)
  | enrolled i machineId =>
    simp only [LocalAgent.step] at he
    split at he <;> cases he
    next hphase => exact hs.desktopStep hcalm (.stay (by rw [hphase]; rfl) (by simp)) (blames_set rfl)
  | spawned i h =>
    simp only [LocalAgent.step] at he
    split at he <;> cases he
    next identity hphase habsent =>
    have hpolling : (s.setDesktop i (.polling h identity)).Blameless :=
      hs.desktopStep hcalm (.stay (by rw [hphase]; rfl) (by simp)) (blames_set rfl)
    refine hpolling.helperStep (.stay ?_ (by simp) (by simp)) fun _ hr => absurd hr (not_refused_set (by simp))
    show HelperPhase.starting.pastLock = (s.helpers h).pastLock
    rw [habsent]
    rfl
  | expire i =>
    simp only [LocalAgent.step] at he
    split at he <;> cases he <;> exact hs.desktopStep hcalm .finish (blames_finish rfl)
  | crash i =>
    cases he
    exact hs.desktopStep hcalm (.next rfl rfl s.kept (.close rfl rfl) (.inl rfl) (by simp))
      (blames_set rfl)
  | launch h =>
    simp only [LocalAgent.step] at he
    split at he <;> cases he
    next habsent =>
    exact hs.helperStep (.stay (by rw [habsent]; rfl) (by simp) (by simp)) fun _ hr =>
      absurd hr (not_refused_set (by simp))
  | helperGo h =>
    refine hs.helperStep (helperStep_helperGo hinv he) fun holder hr => ?_
    obtain ⟨hstarting, hheld⟩ := refused_of_helperGo he hr
    exact holder_of_calm hcalm (decide_eq_true hstarting) hheld
  | bound h port capability =>
    simp only [LocalAgent.step] at he
    split at he <;> cases he
    next identity hphase =>
    exact hs.helperStep (.stay (by rw [hphase]; rfl) (by simp) (by simp)) fun _ hr =>
      absurd hr (not_refused_set (by simp))
  | helperFail h =>
    exact hs.helperStep (helperStep_helperFail he) fun _ hr =>
      absurd hr (not_refused_of_helperFail he)
  | helperCrash h =>
    simp only [LocalAgent.step] at he
    split at he <;> cases he
    exact hs.helperStep .exit fun _ hr => absurd hr not_refused_exit
  | answer h i => exact hs.desktopStep hcalm (desktopStep_answer hinv he) (blames_answer he)
  | legacy running =>
    cases he
    exact ⟨hs.desktop, hs.helper⟩

theorem stepCalm_eq_some : s.stepCalm e = some s' ↔ s.calm e = true ∧ s.step e = some s' := by
  unfold stepCalm
  split
  · next hcalm => simp [hcalm]
  · next hcalm => simp [hcalm]

theorem reach_blameless {identity : Option (Linked Identity)}
    {manifest : Option (Linked ControlManifest)} {running : Bool}
    (hr : Runs.Reach stepCalm (start identity manifest running) s) : s.Inv ∧ s.Blameless := by
  refine hr.invariant (P := fun s => s.Inv ∧ s.Blameless) ⟨inv_start, nofun, nofun⟩ ?_
  intro s s' e hs he
  obtain ⟨hcalm, he⟩ := stepCalm_eq_some.mp he
  exact ⟨hs.1.step he, hs.2.step hs.1 hcalm he⟩

/-! ### Every calm run -/

/-- In the runs in which the lock is tried only while no desktop has it, the probes are not
noticed, and a helper that starts while no other is past its lock gets the lock. -/
theorem probes_unobservable {identity : Option (Linked Identity)}
    {manifest : Option (Linked ControlManifest)} {running : Bool}
    (hr : Runs.Reach stepCalm (start identity manifest running) s) :
    s.Unobservable ∧ ∀ h s', s.helpers h = .starting → (∀ g, (s.helpers g).pastLock = false) →
      s.stepCalm (.helperGo h) = some s' →
        s'.helpers h = .locked ∧ s'.service = some (.helper h) := by
  obtain ⟨hinv, hblameless⟩ := reach_blameless hr
  refine ⟨hblameless.unobservable, ?_⟩
  intro h s' hstarting hnone he
  obtain ⟨hcalm, he⟩ := stepCalm_eq_some.mp he
  have hfree : s.service = none := by
    rw [Option.eq_none_iff_forall_ne_some]
    intro holder hheld
    obtain ⟨g, rfl⟩ := holder_of_calm hcalm (decide_eq_true hstarting) hheld
    have hpast := (hinv.helper g).mpr hheld
    rw [hnone g] at hpast
    cases hpast
  simp only [LocalAgent.step, helperGo, hstarting, hfree] at he
  cases he
  exact ⟨helpers_setHelper, rfl⟩

/-- Instance `0` has the lock for a poll, while the helper that it has started and a snapshot of
instance `1` try it. -/
def samplePolled : List Event :=
  sampleTurnOn ++ List.replicate 2 (Event.go 0) ++ [Event.helperGo 1, Event.snapshot 1] ++
    List.replicate 4 (Event.go 1)

def Phase.answered : Phase → Option LocalHost
  | .ended (.ok host) => some host
  | _ => none

theorem Phase.eq_of_answered {phase : Phase} {host : LocalHost}
    (h : phase.answered = some host) : phase = .ended (.ok host) := by
  unfold Phase.answered at h
  split at h
  · rw [Option.some.inj h]
  · cases h

/-- No helper has ever had the lock, one is refused, and the snapshot reports a detached agent. -/
theorem probes_observed : ∃ s, Runs.Reach LocalAgent.step sampleEnrolled s ∧
    s.helpers 1 = .refused (.desktop 0) ∧
    s.desktops 1 = .ended (.ok ⟨true, some 5, false, some (.detached (some (.desktop 0)))⟩) ∧
    ¬ s.Unobservable := by
  have hrun : (Runs.tryRun LocalAgent.step sampleEnrolled samplePolled).map (fun s =>
      decide (s.helpers 1 = .refused (.desktop 0)) &&
        decide ((s.desktops 1).answered =
          some ⟨true, some 5, false, some (.detached (some (.desktop 0)))⟩)) = some true := by
    decide +kernel
  obtain ⟨s, htry, hs⟩ := Option.map_eq_some_iff.mp hrun
  obtain ⟨hrefused, hended⟩ := Bool.and_eq_true_iff.mp hs
  refine ⟨s, Runs.reach_of_tryRun .init htry, of_decide_eq_true hrefused,
    Phase.eq_of_answered (of_decide_eq_true hended), fun hun => ?_⟩
  obtain ⟨g, hg⟩ := hun.refused 1 _ (of_decide_eq_true hrefused)
  cases hg

/-- Between the polls the helper gets the lock. -/
theorem probes_unobservable_calm : ∃ s s', Runs.Reach stepCalm sampleEnrolled s ∧
    s.Unobservable ∧ s.stepCalm (.helperGo 1) = some s' ∧ s'.service = some (.helper 1) := by
  have hrun : (Runs.tryRun stepCalm sampleEnrolled (sampleTurnOn ++ List.replicate 3 (.go 0))).map
      (fun s => decide (s.helpers 1 = .starting) && decide (s.service = none) &&
        (s.stepCalm (.helperGo 1)).isSome) = some true := by
    decide +kernel
  obtain ⟨s, htry, hs⟩ := Option.map_eq_some_iff.mp hrun
  obtain ⟨hs, he⟩ := Bool.and_eq_true_iff.mp hs
  obtain ⟨hstarting, hfree⟩ := Bool.and_eq_true_iff.mp hs
  obtain ⟨s', he⟩ := Option.isSome_iff_exists.mp he
  have hr := Runs.reach_of_tryRun .init htry
  obtain ⟨hun, hget⟩ := probes_unobservable hr
  have hnone : ∀ g, (s.helpers g).pastLock = false := by
    intro g
    have hinv := (reach_blameless hr).1
    rw [Bool.eq_false_iff]
    intro hpast
    rw [(hinv.helper g).mp hpast] at hfree
    cases of_decide_eq_true hfree
  exact ⟨s, s', hr, hun, he, (hget 1 s' (of_decide_eq_true hstarting) hnone he).2⟩

end LocalAgent

end NebulaDesk
