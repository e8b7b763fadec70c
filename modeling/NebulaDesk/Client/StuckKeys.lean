/-
No key is left down at the agent (`nebula-client/src/application.rs`).

Without races a waiting release is always under the generation the network task
has, so it is sent; and what the commands under that generation will leave down at
the agent is held by the window (`Inv.held`).
-/
import NebulaDesk.Client.AppSession

namespace NebulaDesk

open Presses Runs App

/-- The generation an update tells the window of `id`. -/
def Update.generationOf (id : ℕ) : Update → Option ℕ
  | .upsert info => if info.surfaceId = id then some info.geometryGeneration else none
  | _ => none

theorem Update.generationOf_self (info : SurfaceInfo) :
    (Update.upsert info).generationOf info.surfaceId = some info.geometryGeneration := if_pos rfl

theorem Update.generationOf_other {info : SurfaceInfo} {id : ℕ} (h : id ≠ info.surfaceId) :
    (Update.upsert info).generationOf id = none := if_neg (Ne.symm h)

namespace AppSession

variable {s s' : AppSession} {id g : ℕ} {out : List ApplicationMessage}

/-- The waiting commands that the network task will find in generation `g`. -/
def pending (id g : ℕ) (out : List ApplicationMessage) : List (Press InputKey) :=
  strokes id (out.filter fun c => c.commandTarget = some (id, g))

/-- The generations the window of `id` has been told and will be told. -/
def generations (s : AppSession) (id : ℕ) : List ℕ :=
  (s.app.generation id).toList ++ s.updates.filterMap (·.generationOf id)

theorem pending_append (id g : ℕ) (xs ys : List ApplicationMessage) :
    pending id g (xs ++ ys) = pending id g xs ++ pending id g ys := by
  rw [pending, List.filter_append, strokes_append, pending, pending]

theorem pending_eq_strokes (h : ∀ c ∈ out, ∀ g', c.commandTarget = some (id, g') → g' = g) :
    pending id g out = strokes id out := by
  induction out with
  | nil => rfl
  | cons c out ih =>
    have hrest := ih fun c' hc' => h c' (List.mem_cons_of_mem c hc')
    rw [pending, List.filter_cons]
    split
    · rw [strokes, List.filterMap_cons, ← strokes, ← pending, hrest]
      rfl
    · rename_i hc
      -- a command that is not kept is for another surface
      have hnone : c.press id = none := by
        cases hp : c.press id with
        | none => rfl
        | some p =>
          obtain ⟨g', event, rfl⟩ := press_input_target hp
          have hg := h _ List.mem_cons_self g' rfl
          rw [hg] at hc
          exact absurd (decide_eq_true rfl) hc
      have hskip : strokes id (c :: out) = strokes id out := List.filterMap_cons_none hnone
      rw [hskip, ← pending, hrest]

theorem pending_eq_nil (h : ∀ c ∈ out, c.commandTarget ≠ some (id, g)) : pending id g out = [] := by
  have hnone : out.filter (fun c => c.commandTarget = some (id, g)) = [] := by
    rw [List.filter_eq_nil_iff]
    intro c hc hdec
    exact h c hc (of_decide_eq_true hdec)
  rw [pending, hnone]
  rfl

variable {p : Press InputKey} {update : Update}

theorem mem_strokes : p ∈ strokes id out ↔ ∃ c ∈ out, c.press id = some p :=
  List.mem_filterMap

theorem mem_strokes_of_pending (h : p ∈ pending id g out) : p ∈ strokes id out := by
  obtain ⟨c, hc, hp⟩ := mem_strokes.mp h
  exact mem_strokes.mpr ⟨c, List.mem_of_mem_filter hc, hp⟩

/-- What every state of a session without races keeps. -/
structure Inv (s : AppSession) : Prop where
  registry : s.network.registry.Inv
  app : s.app.WellFormed
  bounded : ∀ info, .upsert info ∈ s.updates → info.surfaceId < maxApplicationSurfaces
  checked : ∀ c ∈ s.outbound, ∀ id p, c.press id = some p → Checked c id
  /-- An id that has not been used is not known to anybody. -/
  fresh : ∀ id, s.network.registry.used id = false →
    s.generations id = [] ∧ .remove id ∉ s.updates ∧
      (∀ c ∈ s.outbound, ∀ g, c.commandTarget ≠ some (id, g)) ∧ s.down id = ∅
  /-- The window is told every generation, in order, and the last is the registry's. -/
  told : ∀ (id : ℕ) (info : SurfaceInfo), s.network.registry.live[id]? = some info →
    (s.generations id).Pairwise (· ≤ ·) ∧
      (s.generations id).getLast? = some info.geometryGeneration ∧ .remove id ∉ s.updates
  older : ∀ (id : ℕ) (info : SurfaceInfo), s.network.registry.live[id]? = some info →
    ∀ c ∈ s.outbound, ∀ g, c.commandTarget = some (id, g) → ∃ u, s.app.generation id = some u ∧ g ≤ u
  current : ∀ (id : ℕ) (info : SurfaceInfo), s.network.registry.live[id]? = some info →
    ∀ c ∈ s.outbound, ∀ key, c.press id = some (.up key) →
      c.commandTarget = some (id, info.geometryGeneration)
  held : s.inputAllowed = true → ∀ (id : ℕ) (info : SurfaceInfo),
    s.network.registry.live[id]? = some info →
    leaves (s.down id) (pending id info.geometryGeneration s.outbound) ⊆ s.app.heldKeys id
  /-- Without the right to input nothing is sent. -/
  muted : s.inputAllowed = false → ∀ id, s.down id = ∅

theorem inv_start {n : ℕ} {registry : SurfaceRegistry} (h : SurfaceRegistry.new n = .ok registry)
    (allowed : Bool) (app : App) (os : ApplicationHostOs) : (start allowed app registry os).Inv := by
  have hlive : ∀ (id : ℕ) (info : SurfaceInfo), registry.live[id]? = some info → False := by
    intro id info hinfo
    unfold SurfaceRegistry.new at h
    split at h
    · cases h
      simp at hinfo
    · cases h
  have hnone : ∀ c ∈ ([] : List ApplicationMessage), False := fun _ hc => absurd hc List.not_mem_nil
  refine ⟨(SurfaceRegistry.inv_new h).1, ?_, ?_, ?_, ?_, ?_, ?_, ?_, ?_, ?_⟩
  · intro id w hw
    cases hw
  · intro info hinfo
    obtain hinfo | hinfo := List.mem_cons.mp hinfo
    · cases hinfo
    · exact absurd hinfo List.not_mem_nil
  · exact fun c hc => (hnone c hc).elim
  · refine fun id _ => ⟨rfl, ?_, fun c hc => (hnone c hc).elim, rfl⟩
    intro hmem
    cases List.mem_singleton.mp hmem
  · exact fun id info hinfo => (hlive id info hinfo).elim
  · exact fun id info hinfo => (hlive id info hinfo).elim
  · exact fun id info hinfo => (hlive id info hinfo).elim
  · exact fun _ id info hinfo => (hlive id info hinfo).elim
  · exact fun _ id => rfl

/-! ### Turns of the windows -/

theorem heldKeys_mono {a a' : App} (ht : App.Turn a a' out) (hup : ∀ key, .up key ∉ strokes id out) :
    a.heldKeys id ⊆ a'.heldKeys id := by
  intro key hkey
  rw [← leaves_of_plays (ht.plays id)]
  exact mem_leaves hkey (hup key)

variable {info : SurfaceInfo} {c : ApplicationMessage} {rest : List Update}

theorem stale_of_release {key : InputKey}
    (hlive : s.network.registry.live[id]? = some info) (hp : c.press id = some (.up key))
    (hclean : s.staleRelease c = false) : c.commandTarget = some (id, info.geometryGeneration) := by
  obtain ⟨g, event, rfl⟩ := press_input_target hp
  simp only [staleRelease, ApplicationMessage.commandTarget, isRelease, hp, hlive, Bool.true_and,
    decide_eq_false_iff_not, not_not] at hclean
  rw [hclean]
  rfl

/-- **A turn of the windows.**  Without the right to input, what a window sends may be dropped. -/
theorem Inv.turn (h : s.Inv) {a : App} (ht : App.Turn s.app a out) {queue : List ApplicationMessage}
    (hqueue : queue = out ∨ s.inputAllowed = false ∧ queue = [])
    (hclean : ∀ c ∈ queue, s.staleRelease c = false) :
    Inv { s with app := a, outbound := s.outbound ++ queue } := by
  have hgens : ∀ id, generations { s with app := a, outbound := s.outbound ++ queue } id =
      s.generations id := by
    intro id
    rw [generations, generations, ht.generations]
  have hold : ∀ c ∈ s.outbound ++ queue, c ∈ s.outbound ∨ c ∈ queue ∧ c ∈ out := by
    intro c hc
    refine (List.mem_append.mp hc).imp_right fun hc => ⟨hc, ?_⟩
    obtain rfl | ⟨-, rfl⟩ := hqueue
    · exact hc
    · exact absurd hc List.not_mem_nil
  refine ⟨h.registry, ht.wellFormed, h.bounded, ?_, ?_, ?_, ?_, ?_, ?_, ?_⟩
  · intro c hc
    exact (hold c hc).elim (h.checked c) fun hc => ht.checked c hc.2
  · intro id hid
    obtain ⟨hnone, hkept, hout, hdown⟩ := h.fresh id hid
    refine ⟨(hgens id).trans hnone, hkept, ?_, hdown⟩
    intro c hc g htarget
    obtain hc | ⟨-, hc⟩ := hold c hc
    · exact hout c hc g htarget
    · -- a window of a surface nobody has heard of
      obtain ⟨id', g', htarget', hg⟩ := ht.target c hc
      rw [htarget] at htarget'
      cases htarget'
      rw [generations, hg] at hnone
      cases hnone
  · intro id info hlive
    rw [hgens]
    exact h.told id info hlive
  · intro id info hlive c hc g htarget
    obtain hc | ⟨-, hc⟩ := hold c hc
    · obtain ⟨u, hu, hle⟩ := h.older id info hlive c hc g htarget
      exact ⟨u, (ht.generations id).trans hu, hle⟩
    · obtain ⟨id', g', htarget', hg⟩ := ht.target c hc
      rw [htarget] at htarget'
      cases htarget'
      exact ⟨g, (ht.generations id).trans hg, le_rfl⟩
  · intro id info hlive c hc key hp
    obtain hc | ⟨hq, hc⟩ := hold c hc
    · exact h.current id info hlive c hc key hp
    · exact stale_of_release hlive hp (hclean c hq)
  · intro hallowed id info hlive
    obtain rfl : queue = out := hqueue.resolve_right fun hmuted => by
      rw [hmuted.1] at hallowed
      cases hallowed
    show leaves (s.down id) (pending id info.geometryGeneration (s.outbound ++ queue)) ⊆ a.heldKeys id
    rw [pending_append, leaves_append]
    by_cases hgen : s.app.generation id = some info.geometryGeneration
    · -- the window is up to date: all it sends will be sent on
      have hall : pending id info.geometryGeneration queue = strokes id queue := by
        refine pending_eq_strokes ?_
        intro c hc g htarget
        obtain ⟨id', g', htarget', hg⟩ := ht.target c hc
        rw [htarget] at htarget'
        cases htarget'
        exact Option.some.inj (hg.symm.trans hgen)
      rw [hall, ← leaves_of_plays (ht.plays id)]
      exact leaves_mono (h.held hallowed id info hlive) _
    · -- it lags behind: nothing it sends will be, but it lets go of nothing either
      have hnothing : pending id info.geometryGeneration queue = [] := by
        refine pending_eq_nil ?_
        intro c hc htarget
        obtain ⟨id', g', htarget', hg⟩ := ht.target c hc
        rw [htarget] at htarget'
        cases htarget'
        exact hgen hg
      have hup : ∀ key, .up key ∉ strokes id queue := by
        intro key hmem
        obtain ⟨c, hc, hp⟩ := mem_strokes.mp hmem
        have htarget := stale_of_release hlive hp (hclean c hc)
        obtain ⟨id', g', htarget', hg⟩ := ht.target c hc
        rw [htarget] at htarget'
        cases htarget'
        exact hgen hg
      rw [hnothing, leaves_nil]
      exact (h.held hallowed id info hlive).trans (heldKeys_mono ht hup)
  · exact h.muted

/-! ### Updates -/

theorem generations_retitled (hup : s.updates = .upsert info :: rest) (id : ℕ) :
    ∃ told, s.generations id = told ++
        generations { s with app := s.app.retitled info, updates := rest } id ∧
      (id = info.surfaceId → told = (s.app.generation id).toList ∧
        generations { s with app := s.app.retitled info, updates := rest } id =
          info.geometryGeneration :: rest.filterMap (·.generationOf id)) ∧
      (id ≠ info.surfaceId → told = []) := by
  rw [generations, generations, hup, retitled_generation]
  by_cases hid : id = info.surfaceId
  · refine ⟨(s.app.generation id).toList, ?_, fun _ => ⟨rfl, ?_⟩, fun hne => absurd hid hne⟩
    · rw [if_pos hid, hid, List.filterMap_cons_some (Update.generationOf_self info)]
      rfl
    · rw [if_pos hid]
      rfl
  · refine ⟨[], ?_, fun heq => absurd heq hid, fun _ => rfl⟩
    rw [if_neg hid, List.filterMap_cons_none (Update.generationOf_other hid), List.nil_append]

/-- **The window takes over the generation it is told.** -/
theorem Inv.retitle (h : s.Inv) (hup : s.updates = .upsert info :: rest) :
    Inv { s with app := s.app.retitled info, updates := rest } := by
  have hin : ∀ u ∈ rest, u ∈ s.updates := by
    intro u hu
    rw [hup]
    exact List.mem_cons_of_mem _ hu
  have hid := h.bounded info (by rw [hup]; exact List.mem_cons_self)
  refine ⟨h.registry, retitled_wellFormed h.app hid, fun i hi => h.bounded i (hin _ hi), h.checked,
    ?_, ?_, ?_, h.current, ?_, h.muted⟩
  · intro id hfresh
    obtain ⟨hnone, hkept, hrest⟩ := h.fresh id hfresh
    obtain ⟨told, heq, -⟩ := generations_retitled hup id
    rw [hnone] at heq
    exact ⟨(List.append_eq_nil_iff.mp heq.symm).2, fun hmem => hkept (hin _ hmem), hrest⟩
  · intro id i hlive
    obtain ⟨hsorted, hlast, hkept⟩ := h.told id i hlive
    obtain ⟨told, heq, hsame, hother⟩ := generations_retitled hup id
    refine ⟨?_, ?_, fun hmem => hkept (hin _ hmem)⟩
    · rw [heq] at hsorted
      exact (List.pairwise_append.mp hsorted).2.1
    · rw [heq] at hlast
      by_cases hself : id = info.surfaceId
      · rw [(hsame hself).2] at hlast ⊢
        rw [List.getLast?_append] at hlast
        simpa using hlast
      · rw [hother hself, List.nil_append] at hlast
        exact hlast
  · intro id i hlive c hc g htarget
    obtain ⟨u, hu, hle⟩ := h.older id i hlive c hc g htarget
    show ∃ u, (s.app.retitled info).generation id = some u ∧ g ≤ u
    rw [retitled_generation]
    split
    · rename_i hself
      -- generations are told in order
      obtain ⟨told, heq, hsame, -⟩ := generations_retitled hup id
      obtain ⟨htold, hnext⟩ := hsame hself
      have hsorted := (h.told id i hlive).1
      rw [heq, htold, hu, hnext] at hsorted
      have hstep := (List.pairwise_cons.mp hsorted).1 info.geometryGeneration List.mem_cons_self
      exact ⟨info.geometryGeneration, rfl, hle.trans hstep⟩
    · exact ⟨u, hu, hle⟩
  · intro hallowed id i hlive
    show _ ⊆ (s.app.retitled info).heldKeys id
    rw [retitled_heldKeys]
    exact h.held hallowed id i hlive

theorem Inv.heard (h : s.Inv)
    (hup : s.updates = update :: rest) (hquiet : ∀ id, update.generationOf id = none) :
    Inv { s with updates := rest } := by
  have hin : ∀ u ∈ rest, u ∈ s.updates := by
    intro u hu
    rw [hup]
    exact List.mem_cons_of_mem _ hu
  have hgens : ∀ id, generations { s with updates := rest } id = s.generations id := by
    intro id
    rw [generations, generations, hup, List.filterMap_cons_none (hquiet id)]
  refine ⟨h.registry, h.app, fun i hi => h.bounded i (hin _ hi), h.checked, ?_, ?_, h.older,
    h.current, h.held, h.muted⟩
  · intro id hfresh
    obtain ⟨hnone, hkept, hrest⟩ := h.fresh id hfresh
    rw [hgens]
    exact ⟨hnone, fun hmem => hkept (hin _ hmem), hrest⟩
  · intro id info hlive
    obtain ⟨hsorted, hlast, hkept⟩ := h.told id info hlive
    rw [hgens]
    exact ⟨hsorted, hlast, fun hmem => hkept (hin _ hmem)⟩

/-- **A window goes with its surface.** -/
theorem Inv.forget (h : s.Inv) {gone : ℕ} (hdead : ∀ (info : SurfaceInfo),
    s.network.registry.live[gone]? ≠ some info) :
    Inv { s with app := s.app.dropWindow gone } := by
  have happ := s.app.dropWindow_surfaces gone
  have hother : ∀ (id : ℕ) (info : SurfaceInfo), s.network.registry.live[id]? = some info →
      (s.app.dropWindow gone).surfaces id = s.app.surfaces id := by
    intro id info hlive
    rw [happ]
    split
    · rename_i hid
      rw [hid] at hlive
      exact absurd hlive (hdead info)
    · rfl
  refine ⟨h.registry, ?_, h.bounded, h.checked, ?_, ?_, ?_, h.current, ?_, h.muted⟩
  · intro id w hw
    replace hw : (s.app.dropWindow gone).surfaces id = some w := hw
    rw [happ] at hw
    split at hw
    · cases hw
    · exact h.app id w hw
  · intro id hfresh
    obtain ⟨hnone, hrest⟩ := h.fresh id hfresh
    refine ⟨?_, hrest⟩
    obtain ⟨hgen, htold⟩ := List.append_eq_nil_iff.mp hnone
    show ((s.app.dropWindow gone).generation id).toList ++ _ = []
    rw [htold, List.append_nil, generation, happ]
    split
    · rfl
    · exact hgen
  · intro id info hlive
    show (((s.app.dropWindow gone).generation id).toList ++ _).Pairwise _ ∧
      (((s.app.dropWindow gone).generation id).toList ++ _).getLast? = _ ∧ _
    rw [generation, hother id info hlive]
    exact h.told id info hlive
  · intro id info hlive c hc g htarget
    show ∃ u, (s.app.dropWindow gone).generation id = some u ∧ g ≤ u
    rw [generation, hother id info hlive]
    exact h.older id info hlive c hc g htarget
  · intro hallowed id info hlive
    show _ ⊆ (s.app.dropWindow gone).heldKeys id
    rw [heldKeys, hother id info hlive]
    exact h.held hallowed id info hlive

/-! ### The network task -/

/-- A waiting command that passed the checks when it was queued, in the generation of its surface,
passes those of the network task. -/
theorem validateCommand_of_checked {r : SurfaceRegistry} (h : r.Inv)
    (hlive : r.live[id]? = some info) {event : List UInt8}
    (hcheck : ApplicationMessage.checkInput id event = .ok ()) :
    r.validateCommand (.input id info.geometryGeneration event) = .ok info := by
  have hid : id < maxApplicationSurfaces := lt_of_lt_of_le (h.keyed id info hlive).2.1 h.bounded.2
  have hgen : info.geometryGeneration ≠ 0 := by
    have hvalid := h.valid id info hlive
    unfold SurfaceInfo.validate at hvalid
    split at hvalid
    · cases hvalid
    · rename_i hall
      rw [not_or, not_or] at hall
      exact hall.2.1
  have hcommand : ApplicationMessage.checkCommand id info.geometryGeneration = .ok () := by
    rw [ApplicationMessage.checkCommand, if_neg (by rw [not_or]; exact ⟨by omega, hgen⟩)]
  simp only [SurfaceRegistry.validateCommand, ApplicationMessage.validate, hcommand, hcheck, bind,
    Except.bind, ApplicationMessage.commandTarget, hlive, ne_eq, not_true_eq_false, if_false, pure,
    Except.pure]

theorem strokes_of_press (h : c.press id = some p) : strokes id [c] = [p] := by
  rw [strokes, List.filterMap_cons_some h]
  rfl

theorem strokes_of_none (h : c.press id = none) : strokes id [c] = [] := by
  rw [strokes, List.filterMap_cons_none h]
  rfl

/-- **The oldest command is taken.** -/
theorem Inv.command (h : s.Inv) {rest : List ApplicationMessage} (hout : s.outbound = c :: rest) :
    Inv { s with outbound := rest, sent := if s.passes c then s.sent ++ [c] else s.sent } := by
  have hin : ∀ c' ∈ rest, c' ∈ s.outbound := by
    intro c' hc'
    rw [hout]
    exact List.mem_cons_of_mem _ hc'
  have hc : c ∈ s.outbound := by
    rw [hout]
    exact List.mem_cons_self
  have hdown : ∀ id, down
      { s with outbound := rest, sent := if s.passes c then s.sent ++ [c] else s.sent } id =
      if s.passes c then leaves (s.down id) (strokes id [c]) else s.down id := by
    intro id
    unfold down
    dsimp only
    split
    · rw [strokes_append, leaves_append]
    · rfl
  -- a command that does nothing to a surface changes nothing for it
  have hsame : ∀ id, c.press id = none → down
      { s with outbound := rest, sent := if s.passes c then s.sent ++ [c] else s.sent } id =
      s.down id := by
    intro id hnone
    rw [hdown, strokes_of_none hnone]
    split <;> rfl
  refine ⟨h.registry, h.app, h.bounded, fun c' hc' => h.checked c' (hin c' hc'), ?_, h.told,
    fun id info hlive c' hc' => h.older id info hlive c' (hin c' hc'),
    fun id info hlive c' hc' => h.current id info hlive c' (hin c' hc'), ?_, ?_⟩
  · intro id hfresh
    obtain ⟨hnone, hkept, htargets, hempty⟩ := h.fresh id hfresh
    refine ⟨hnone, hkept, fun c' hc' => htargets c' (hin c' hc'), ?_⟩
    rw [hsame id, hempty]
    cases hp : c.press id with
    | none => rfl
    | some p =>
      obtain ⟨g, event, rfl⟩ := press_input_target hp
      exact absurd rfl (htargets _ hc g)
  · intro hallowed id info hlive
    have hheld := h.held hallowed id info hlive
    rw [hout, ← List.singleton_append, pending_append, leaves_append] at hheld
    cases hp : c.press id with
    | none =>
      have hnothing : pending id info.geometryGeneration [c] = [] := by
        rw [pending, List.filter_singleton]
        cases decide (c.commandTarget = some (id, info.geometryGeneration))
        · rfl
        · exact strokes_of_none hp
      rw [hnothing, leaves_nil] at hheld
      rw [hsame id hp]
      exact hheld
    | some p =>
      obtain ⟨g, event, hcheckEq, hcheck⟩ := h.checked c hc id p hp
      subst hcheckEq
      rw [hdown]
      by_cases hg : g = info.geometryGeneration
      · -- it is sent
        subst hg
        have hpasses : s.passes (.input id info.geometryGeneration event) = true := by
          rw [passes, validateCommand_of_checked h.registry hlive hcheck, hallowed]
          rfl
        have hkeep : pending id info.geometryGeneration
            [.input id info.geometryGeneration event] = [p] := by
          rw [pending, List.filter_singleton]
          simp only [ApplicationMessage.commandTarget, decide_true]
          exact strokes_of_press hp
        rw [hpasses, if_pos rfl, strokes_of_press hp, ← hkeep]
        exact hheld
      · -- it is dropped
        have hdrops : s.passes (.input id g event) = false := by
          rw [passes]
          split
          · rename_i surface hok
            obtain ⟨id', htarget, hlive'⟩ := SurfaceRegistry.validateCommand_ok hok
            cases htarget
            rw [hlive] at hlive'
            exact absurd (congrArg _ (Option.some.inj hlive')).symm hg
          · rfl
        have hskip : pending id info.geometryGeneration [.input id g event] = [] := by
          refine pending_eq_nil ?_
          intro c' hc' htarget
          rw [List.mem_singleton.mp hc'] at htarget
          exact hg (Prod.mk.inj (Option.some.inj htarget)).2
        rw [hskip, leaves_nil] at hheld
        rw [hdrops]
        exact hheld
  · intro hmuted id
    rw [hdown]
    split
    · rename_i hpasses
      -- only requests for key frames are sent
      have hkey : isKeyframeRequest c = true := by
        rw [passes, hmuted, Bool.false_or, Bool.and_eq_true] at hpasses
        exact hpasses.2
      have hnone : c.press id = none := by
        cases c with
        | requestKeyframe => rfl
        | _ => cases hkey
      rw [strokes_of_none hnone]
      exact h.muted hmuted id
    · exact h.muted hmuted id

theorem le_of_last {l : List ℕ} {last : ℕ} (h : l.Pairwise (· ≤ ·)) (hlast : l.getLast? = some last) :
    ∀ a ∈ l, a ≤ last := by
  obtain ⟨front, rfl⟩ := List.getLast?_eq_some_iff.mp hlast
  intro a ha
  obtain ha | ha := List.mem_append.mp ha
  · exact (List.pairwise_append.mp h).2.2 a ha last List.mem_cons_self
  · rw [List.mem_singleton.mp ha]

theorem Inv.told_le (h : s.Inv) (hlive : s.network.registry.live[id]? = some info)
    {u : ℕ} (hu : s.app.generation id = some u) : u ≤ info.geometryGeneration := by
  obtain ⟨hsorted, hlast, -⟩ := h.told id info hlive
  refine le_of_last hsorted hlast u ?_
  rw [generations, hu]
  exact List.mem_cons_self

theorem generation_le_of_upsert {r : SurfaceRegistry} {info previous : SurfaceInfo}
    (hstale : r.staleGeometry info = false) (hlive : r.live[info.surfaceId]? = some previous) :
    previous.geometryGeneration ≤ info.geometryGeneration := by
  simp only [SurfaceRegistry.staleGeometry, hlive, Bool.or_eq_false_iff, decide_eq_false_iff_not,
    not_lt] at hstale
  exact hstale.1

/-- **A new generation is accepted.** -/
theorem Inv.upsert (h : s.Inv) {network : ClientSurfaces}
    (hok : s.network.registry.upsert info = (.ok (), network.registry))
    (hclean : ∀ previous, s.network.registry.live[info.surfaceId]? = some previous →
      previous.geometryGeneration ≠ info.geometryGeneration →
      ∀ key, .up key ∉ strokes info.surfaceId s.outbound) :
    Inv { s with network := network, updates := s.updates ++ [.upsert info] } := by
  obtain ⟨-, hmax, hused, hstale, -, hreg⟩ := SurfaceRegistry.upsert_ok hok
  have hlive : ∀ (id : ℕ) (i : SurfaceInfo), network.registry.live[id]? = some i →
      (id = info.surfaceId ∧ i = info) ∨
        (id ≠ info.surfaceId ∧ s.network.registry.live[id]? = some i) := by
    intro id i hi
    rw [hreg] at hi
    replace hi := (SurfaceRegistry.getElem?_insert _ _ _).symm.trans hi
    split at hi
    · rename_i heq
      exact .inl ⟨heq.symm, (Option.some.inj hi).symm⟩
    · rename_i hne
      exact .inr ⟨Ne.symm hne, hi⟩
  have hgens : ∀ id, generations { s with network := network, updates := s.updates ++ [.upsert info] } id =
      s.generations id ++ [Update.upsert info].filterMap (·.generationOf id) := by
    intro id
    rw [generations, generations, List.filterMap_append, ← List.append_assoc]
  have hself : [Update.upsert info].filterMap (·.generationOf info.surfaceId) =
      [info.geometryGeneration] := by
    rw [List.filterMap_cons_some (Update.generationOf_self info)]
    rfl
  have hother : ∀ id ≠ info.surfaceId, [Update.upsert info].filterMap (·.generationOf id) = [] := by
    intro id hne
    rw [List.filterMap_cons_none (Update.generationOf_other hne)]
    rfl
  have hkeep : ∀ {id}, .remove id ∉ s.updates → Update.remove id ∉ s.updates ++ [.upsert info] := by
    intro id hkept hmem
    obtain hmem | hmem := List.mem_append.mp hmem
    · exact hkept hmem
    · cases List.mem_singleton.mp hmem
  -- the surface that is new, and the one that was there
  have hcases : (s.network.registry.used info.surfaceId = false) ∨
      ∃ previous, s.network.registry.live[info.surfaceId]? = some previous ∧
        previous.geometryGeneration ≤ info.geometryGeneration := by
    cases hu : s.network.registry.used info.surfaceId with
    | false => exact .inl rfl
    | true =>
      obtain ⟨previous, hprevious⟩ := SurfaceRegistry.mem_live.mp (hused hu)
      exact .inr ⟨previous, hprevious, generation_le_of_upsert hstale hprevious⟩
  refine ⟨h.registry.upsert hok, h.app, ?_, h.checked, ?_, ?_, ?_, ?_, ?_, h.muted⟩
  · intro i hi
    obtain hi | hi := List.mem_append.mp hi
    · exact h.bounded i hi
    · rw [List.mem_singleton] at hi
      injection hi with hi
      rw [hi]
      exact lt_of_lt_of_le hmax h.registry.bounded.2
  · intro id hfresh
    replace hfresh : network.registry.used id = false := hfresh
    rw [hreg] at hfresh
    have hne : id ≠ info.surfaceId := by
      rintro rfl
      have hset : Function.update s.network.registry.used info.surfaceId true info.surfaceId = true :=
        Function.update_self _ _ _
      exact absurd (hset.symm.trans hfresh) (by decide)
    replace hfresh : s.network.registry.used id = false :=
      (Function.update_of_ne hne _ _).symm.trans hfresh
    obtain ⟨hnone, hkept, hrest⟩ := h.fresh id hfresh
    rw [hgens, hother id hne, List.append_nil]
    exact ⟨hnone, hkeep hkept, hrest⟩
  · intro id i hi
    rw [hgens]
    obtain ⟨rfl, rfl⟩ | ⟨hne, hi⟩ := hlive id i hi
    · rw [hself]
      obtain hnew | ⟨previous, hprevious, hle⟩ := hcases
      · obtain ⟨hnone, hkept, -⟩ := h.fresh _ hnew
        rw [hnone]
        exact ⟨List.pairwise_singleton _ _, rfl, hkeep hkept⟩
      · obtain ⟨hsorted, hlast, hkept⟩ := h.told _ _ hprevious
        refine ⟨List.pairwise_append.mpr ⟨hsorted, List.pairwise_singleton _ _, ?_⟩, ?_, hkeep hkept⟩
        · intro a ha b hb
          rw [List.mem_singleton.mp hb]
          exact (le_of_last hsorted hlast a ha).trans hle
        · rw [List.getLast?_append]
          rfl
    · obtain ⟨hsorted, hlast, hkept⟩ := h.told id i hi
      rw [hother id hne, List.append_nil]
      exact ⟨hsorted, hlast, hkeep hkept⟩
  · intro id i hi c hc g htarget
    obtain ⟨rfl, rfl⟩ | ⟨-, hi⟩ := hlive id i hi
    · obtain hnew | ⟨previous, hprevious, -⟩ := hcases
      · exact absurd htarget ((h.fresh _ hnew).2.2.1 c hc g)
      · exact h.older _ _ hprevious c hc g htarget
    · exact h.older id i hi c hc g htarget
  · intro id i hi c hc key hp
    obtain ⟨rfl, rfl⟩ | ⟨-, hi⟩ := hlive id i hi
    · obtain hnew | ⟨previous, hprevious, -⟩ := hcases
      · obtain ⟨g, event, rfl⟩ := press_input_target hp
        exact absurd rfl ((h.fresh _ hnew).2.2.1 _ hc g)
      · by_cases hgen : previous.geometryGeneration = i.geometryGeneration
        · rw [← hgen]
          exact h.current _ _ hprevious c hc key hp
        · exact absurd (mem_strokes.mpr ⟨c, hc, hp⟩) (hclean previous hprevious hgen key)
    · exact h.current id i hi c hc key hp
  · intro hallowed id i hi
    obtain ⟨rfl, rfl⟩ | ⟨-, hi⟩ := hlive id i hi
    · obtain hnew | ⟨previous, hprevious, hle⟩ := hcases
      · obtain ⟨-, -, hnone, hdown⟩ := h.fresh _ hnew
        have hnothing := pending_eq_nil (g := i.geometryGeneration) fun c hc => hnone c hc _
        show leaves (s.down i.surfaceId) (pending i.surfaceId i.geometryGeneration s.outbound) ⊆ _
        rw [hnothing, hdown]
        exact Finset.empty_subset _
      · have hheld := h.held hallowed _ _ hprevious
        by_cases hgen : previous.geometryGeneration = i.geometryGeneration
        · rw [hgen] at hheld
          exact hheld
        · -- no release is waiting, so what is down stays down, and is held
          have hup := hclean previous hprevious hgen
          have hnothing : pending i.surfaceId i.geometryGeneration s.outbound = [] := by
            refine pending_eq_nil ?_
            intro c hc htarget
            obtain ⟨u, hu, hleu⟩ := h.older _ _ hprevious c hc _ htarget
            have := h.told_le hprevious hu
            omega
          show leaves (s.down i.surfaceId) (pending i.surfaceId i.geometryGeneration s.outbound) ⊆ _
          rw [hnothing, leaves_nil]
          intro key hkey
          exact hheld (mem_leaves hkey fun hmem => hup key (mem_strokes_of_pending hmem))
    · exact h.held hallowed id i hi

theorem Inv.tell (h : s.Inv) (hquiet : ∀ id, update.generationOf id = none)
    (hkeep : ∀ (id : ℕ) (info : SurfaceInfo), s.network.registry.live[id]? = some info →
      update ≠ .remove id) (hused : ∀ id, s.network.registry.used id = false → update ≠ .remove id) :
    Inv { s with updates := s.updates ++ [update] } := by
  have hgens : ∀ id, generations { s with updates := s.updates ++ [update] } id = s.generations id := by
    intro id
    rw [generations, generations, List.filterMap_append, List.filterMap_cons_none (hquiet id),
      List.filterMap_nil, List.append_nil]
  have hmem : ∀ {u}, u ∈ s.updates ++ [update] → u ∈ s.updates ∨ update = u := by
    intro u hu
    exact (List.mem_append.mp hu).imp_right fun hu => (List.mem_singleton.mp hu).symm
  refine ⟨h.registry, h.app, ?_, h.checked, ?_, ?_, h.older, h.current, h.held, h.muted⟩
  · intro info hinfo
    obtain hinfo | rfl := hmem hinfo
    · exact h.bounded info hinfo
    · have hself := hquiet info.surfaceId
      rw [Update.generationOf_self] at hself
      cases hself
  · intro id hfresh
    obtain ⟨hnone, hkept, hrest⟩ := h.fresh id hfresh
    rw [hgens]
    exact ⟨hnone, fun hu => (hmem hu).elim hkept (hused id hfresh), hrest⟩
  · intro id info hlive
    obtain ⟨hsorted, hlast, hkept⟩ := h.told id info hlive
    rw [hgens]
    exact ⟨hsorted, hlast, fun hu => (hmem hu).elim hkept (hkeep id info hlive)⟩

/-- **A surface is removed.** -/
theorem Inv.remove (h : s.Inv) {gone : ℕ} {network : ClientSurfaces}
    (hok : s.network.registry.remove gone = (.ok (), network.registry)) :
    Inv { s with network := network, updates := s.updates ++ [.remove gone] } := by
  obtain ⟨hmem, -, hreg⟩ := SurfaceRegistry.remove_ok hok
  have hlive : ∀ (id : ℕ) (info : SurfaceInfo), network.registry.live[id]? = some info →
      id ≠ gone ∧ s.network.registry.live[id]? = some info := by
    intro id info hinfo
    rw [hreg] at hinfo
    replace hinfo := (SurfaceRegistry.getElem?_erase _ _).symm.trans hinfo
    split at hinfo
    · cases hinfo
    · rename_i hne
      exact ⟨Ne.symm hne, hinfo⟩
  have hsame : network.registry.used = s.network.registry.used := by rw [hreg]
  have hnet : Inv { s with network := network } := by
    refine ⟨h.registry.remove hok, h.app, h.bounded, h.checked, ?_, ?_, ?_, ?_, ?_, h.muted⟩
    · intro id hfresh
      exact h.fresh id (hsame ▸ hfresh)
    · exact fun id info hinfo => h.told id info (hlive id info hinfo).2
    · exact fun id info hinfo => h.older id info (hlive id info hinfo).2
    · exact fun id info hinfo => h.current id info (hlive id info hinfo).2
    · exact fun hallowed id info hinfo => h.held hallowed id info (hlive id info hinfo).2
  refine hnet.tell (fun _ => rfl) ?_ ?_
  · intro id info hinfo heq
    injection heq with heq
    exact (hlive id info hinfo).1 heq.symm
  · intro id hfresh heq
    injection heq with heq
    obtain ⟨info, hinfo⟩ := SurfaceRegistry.mem_live.mp hmem
    have hused := (h.registry.keyed gone info hinfo).2.2
    rw [heq, ← hsame] at hused
    exact absurd (hused.symm.trans hfresh) (by decide)

theorem Inv.end (h : s.Inv) : Inv { s with ended := true } :=
  { h with }

theorem onUpsert_ok {c c' : ClientSurfaces} (h : c.onUpsert info = .ok c') :
    c.registry.upsert info = (.ok (), c'.registry) := by
  unfold ClientSurfaces.onUpsert at h
  dsimp only at h
  split at h
  · cases h
  · split at h
    · cases h
    · split at h
      · cases h
      · rename_i hok
        cases h
        exact hok

theorem onRemove_ok {c c' : ClientSurfaces} {gone : ℕ} (h : c.onRemove gone = .ok c') :
    c.registry.remove gone = (.ok (), c'.registry) := by
  unfold ClientSurfaces.onRemove at h
  split at h
  · cases h
  · rename_i hok
    cases h
    exact hok

/-! ### Whole runs -/

theorem Inv.receive (h : s.Inv) {message : ApplicationMessage}
    (hclean : s.races (.lifecycle message) = false) : (s.receive message).Inv := by
  cases message with
  | surfaceUnavailable id reason =>
    unfold AppSession.receive
    dsimp only
    split
    · exact h.tell (fun _ => rfl) (fun _ _ _ heq => by cases heq) fun _ _ heq => by cases heq
    · exact h.end
  | surfaceUpsert info =>
    unfold AppSession.receive
    dsimp only
    split
    · rename_i network hok
      refine h.upsert (onUpsert_ok hok) ?_
      intro previous hprevious hgen key hmem
      obtain ⟨c, hc, hp⟩ := mem_strokes.mp hmem
      simp only [races, hprevious, Bool.and_eq_false_imp, decide_eq_true_eq] at hclean
      have hnone := List.any_eq_false.mp (hclean hgen) c hc
      rw [isRelease, hp] at hnone
      exact hnone rfl
    · exact h.end
  | surfaceRemove gone =>
    unfold AppSession.receive
    dsimp only
    split
    · rename_i network hok
      exact h.remove (onRemove_ok hok)
    · exact h.end
  | _ => exact h.end

theorem Inv.drain (h : s.Inv) (hup : s.updates = update :: rest)
    (hclean : ∀ c ∈ (s.app.apply update).2, s.staleRelease c = false) :
    Inv { s with app := (s.app.apply update).1, outbound := s.outbound ++ (s.app.apply update).2,
                  updates := rest } := by
  cases update with
  | upsert info =>
    have hid := h.bounded info (by rw [hup]; exact List.mem_cons_self)
    exact (h.retitle hup).turn (upsert_turn h.app hid) (.inl rfl) hclean
  | remove gone =>
    have hdead : ∀ info : SurfaceInfo, s.network.registry.live[gone]? ≠ some info := by
      intro info hlive
      refine (h.told gone info hlive).2.2 ?_
      rw [hup]
      exact List.mem_cons_self
    have hdone := (h.heard hup fun _ => rfl).forget hdead
    show Inv { s with app := s.app.dropWindow gone, outbound := s.outbound ++ [], updates := rest }
    rw [List.append_nil]
    exact hdone
  | unavailable id =>
    exact (h.heard hup fun _ => rfl).turn (unavailable_turn h.app id) (.inl rfl) hclean
  | host os => exact (h.heard hup fun _ => rfl).turn (host_turn h.app os) (.inl rfl) hclean

theorem queued_cases (s : AppSession) (out : List ApplicationMessage) :
    s.queued out = out ∨ s.inputAllowed = false ∧ s.queued out = [] := by
  unfold queued
  cases s.inputAllowed
  · exact .inr ⟨rfl, rfl⟩
  · exact .inl rfl

theorem inv_step {act : AppAct} (h : s.Inv) (hs : s.stepWithin act = some s') : s'.Inv := by
  unfold stepWithin at hs
  split at hs
  · cases hs
  rename_i hraces
  rw [Bool.not_eq_true] at hraces
  unfold step at hs
  split at hs
  · cases hs
  cases act with
  | window id event =>
    obtain ⟨r, hr, rfl⟩ := Option.map_eq_some_iff.mp hs
    simp only [races, hr] at hraces
    have hclean := fun c hc => Bool.not_eq_true _ ▸ List.any_eq_false.mp hraces c hc
    obtain ⟨-, rfl⟩ := Runs.some_of_unless hr
    exact h.turn (windowEvent_turn h.app id event) (s.queued_cases _) hclean
  | wait id resize minimized =>
    obtain ⟨r, hr, rfl⟩ := Option.map_eq_some_iff.mp hs
    simp only [races, hr] at hraces
    have hclean := fun c hc => Bool.not_eq_true _ ▸ List.any_eq_false.mp hraces c hc
    cases hr
    exact h.turn (aboutToWait_turn h.app id resize minimized) (s.queued_cases _) hclean
  | drain =>
    obtain ⟨r, hr, rfl⟩ := Option.map_eq_some_iff.mp hs
    simp only [races, hr] at hraces
    have hclean := fun c hc => Bool.not_eq_true _ ▸ List.any_eq_false.mp hraces c hc
    obtain ⟨update, hupdate, rfl⟩ := Option.map_eq_some_iff.mp hr
    obtain ⟨rest, hup⟩ := List.head?_eq_some_iff.mp hupdate
    have hdrain := h.drain hup hclean
    rw [hup]
    exact hdrain
  | command =>
    dsimp only at hs
    split at hs
    · cases hs
    · rename_i c rest hout
      cases hs
      exact h.command hout
  | lifecycle message =>
    cases hs
    exact h.receive hraces
  | stop =>
    cases hs
    exact h.end

/-- **No stuck keys, without races.**  Every waiting release is one the network task sends on, and
what the agent has down is held by the window or about to be released. -/
theorem no_stuck_keys {n : ℕ} {registry : SurfaceRegistry} (hnew : SurfaceRegistry.new n = .ok registry)
    (allowed : Bool) (app : App) (os : ApplicationHostOs) :
    ∀ s, Reach stepWithin (start allowed app registry os) s →
      ∀ (id : ℕ) (info : SurfaceInfo), s.network.registry.live[id]? = some info →
      (∀ c ∈ s.outbound, ∀ key, c.press id = some (.up key) →
        s.network.registry.validateCommand c = .ok info) ∧
      ∀ key ∈ s.down id, key ∈ s.app.heldKeys id ∨ .up key ∈ strokes id s.outbound := by
  intro s hs id info hlive
  have h : s.Inv := hs.invariant (inv_start hnew allowed app os) fun _ _ _ h hs => inv_step h hs
  constructor
  · intro c hc key hp
    obtain ⟨g, event, rfl, hcheck⟩ := h.checked c hc id _ hp
    obtain ⟨-, rfl⟩ := Prod.mk.inj (Option.some.inj (h.current id info hlive _ hc key hp))
    exact validateCommand_of_checked h.registry hlive hcheck
  · intro key hkey
    by_cases hup : .up key ∈ strokes id s.outbound
    · exact .inr hup
    · refine .inl ?_
      cases hallowed : s.inputAllowed with
      | true =>
        exact h.held hallowed id info hlive
          (mem_leaves hkey fun hmem => hup (mem_strokes_of_pending hmem))
      | false =>
        rw [h.muted hallowed id] at hkey
        exact absurd hkey (Finset.notMem_empty key)

def linuxApp : App := ⟨fun _ => none, .linux, .linux, false, .editing, .semantic⟩

def emptyRegistry : SurfaceRegistry := ⟨maxApplicationSurfaces, fun _ => false, ∅⟩

def keyA : HidUsage := ⟨0x04, by decide⟩

/-- A window appears and gets the focus, A goes down in it, and the agent is told. -/
def pressA : List AppAct :=
  [.lifecycle (.surfaceUpsert (.sample 0 none 1)), .drain, .drain, .window 0 (.focused true),
    .window 0 (.keyboardInput true (some keyA) false false), .command, .command]

/-- The surface changes its size, and the window hears of it before A goes up. -/
def resizedInTime : List AppAct :=
  pressA ++ ([.lifecycle (.surfaceUpsert (.sample 0 none 2)), .drain,
    .window 0 (.keyboardInput false (some keyA) false false), .command] : List AppAct)

theorem no_stuck_keys_resized :
    (tryRun stepWithin (start true linuxApp emptyRegistry .linux) resizedInTime).map
      (fun s => decide (s.outbound = [] ∧ s.down 0 = ∅ ∧
        (s.network.registry.live[0]?).map (·.geometryGeneration) = some 2)) = some true ∧
    (tryRun stepWithin (start true linuxApp emptyRegistry .linux) pressA).map
      (fun s => decide (s.down 0 = {.inl 0x04} ∧ (s.network.registry.live[0]?).isSome)) = some true ∧
    ∀ s, tryRun stepWithin (start true linuxApp emptyRegistry .linux) pressA = some s →
      ∀ info : SurfaceInfo, s.network.registry.live[0]? = some info →
      ∀ key ∈ s.down 0, key ∈ s.app.heldKeys 0 ∨ .up key ∈ strokes 0 s.outbound := by
  refine ⟨by decide +kernel, by decide +kernel, ?_⟩
  intro s hs info hlive
  exact (no_stuck_keys (n := maxApplicationSurfaces) rfl true linuxApp .linux s
    (reach_of_tryRun .init hs) 0 info hlive).2

/-- A goes up after the network task has accepted the new size, and before the window has. -/
def resizedTooSoon : List AppAct :=
  pressA ++ ([.lifecycle (.surfaceUpsert (.sample 0 none 2)),
    .window 0 (.keyboardInput false (some keyA) false false), .command, .drain] : List AppAct)

/-- A is down at the agent, the window does not hold it, and nothing is waiting. -/
theorem stuck_after_resize : ∃ s info, Reach step (start true linuxApp emptyRegistry .linux) s ∧
    s.ended = false ∧ s.outbound = [] ∧ s.network.registry.live[0]? = some info ∧
    .inl 0x04 ∈ s.down 0 ∧ .inl 0x04 ∉ s.app.heldKeys 0 := by
  have hrun : (tryRun step (start true linuxApp emptyRegistry .linux) resizedTooSoon).map
      (fun s => decide (s.ended = false ∧ s.outbound = [] ∧
        (s.network.registry.live[0]?).isSome = true ∧
        .inl 0x04 ∈ s.down 0 ∧ .inl 0x04 ∉ s.app.heldKeys 0)) = some true := by
    decide +kernel
  obtain ⟨s, hs, hfacts⟩ := Option.map_eq_some_iff.mp hrun
  obtain ⟨hended, hout, hlive, hdown, hheld⟩ := of_decide_eq_true hfacts
  obtain ⟨info, hinfo⟩ := Option.isSome_iff_exists.mp hlive
  exact ⟨s, info, reach_of_tryRun .init hs, hended, hout, hinfo, hdown, hheld⟩

end AppSession

end NebulaDesk
