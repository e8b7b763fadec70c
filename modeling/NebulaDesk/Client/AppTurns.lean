/-
What the windows of a session send in one go (`nebula-client/src/application.rs`).

`App.Turn` is `AppWindow.Turn` for all windows at once.  A new generation is first
taken over by its window (`App.retitled`), and everything the update makes the
windows send comes after that.
-/
import NebulaDesk.Client.WindowInput

namespace NebulaDesk

open Presses AppWindow

namespace App

variable {a a' : App} {out : List ApplicationMessage}

/-- Every window is kept under its surface's id. -/
def WellFormed (a : App) : Prop :=
  ∀ id w, a.surfaces id = some w → w.info.surfaceId = id ∧ w.Sane

/-- The generation the window of a surface has been told. -/
def generation (a : App) (id : ℕ) : Option ℕ := (a.surfaces id).map (·.info.geometryGeneration)

/-- What the window of a surface holds down at the agent. -/
def heldKeys (a : App) (id : ℕ) : Finset InputKey := (a.surfaces id).elim ∅ AppWindow.heldKeys

theorem generation_of_some {id : ℕ} {w : AppWindow} (h : a.surfaces id = some w) :
    a.generation id = some w.info.geometryGeneration := by
  rw [generation, h]
  rfl

theorem setWindow_surfaces (a : App) (id : ℕ) (w : AppWindow) (other : ℕ) :
    (a.setWindow id w).surfaces other = if other = id then some w else a.surfaces other :=
  Function.update_apply _ _ _ _

theorem dropWindow_surfaces (a : App) (id other : ℕ) :
    (a.dropWindow id).surfaces other = if other = id then none else a.surfaces other :=
  Function.update_apply _ _ _ _

/-- A command is scoped to `id`, and passes the checks of its event. -/
def Checked (c : ApplicationMessage) (id : ℕ) : Prop :=
  ∃ generation event, c = .input id generation event ∧
    ApplicationMessage.checkInput id event = .ok ()

/-- What the windows do in one go. -/
structure Turn (a a' : App) (out : List ApplicationMessage) : Prop where
  wellFormed : a'.WellFormed
  generations : ∀ id, a'.generation id = a.generation id
  target : ∀ c ∈ out, ∃ id g, c.commandTarget = some (id, g) ∧ a.generation id = some g
  checked : ∀ c ∈ out, ∀ id p, c.press id = some p → Checked c id
  plays : ∀ id, plays (a.heldKeys id) (strokes id out) = some (a'.heldKeys id)

theorem Turn.refl (h : a.WellFormed) : Turn a a [] where
  wellFormed := h
  generations := fun _ => rfl
  target := fun _ hc => absurd hc List.not_mem_nil
  checked := fun _ hc => absurd hc List.not_mem_nil
  plays := fun _ => rfl

theorem Turn.trans {a'' : App} {xs ys : List ApplicationMessage} (h : Turn a a' xs)
    (h' : Turn a' a'' ys) : Turn a a'' (xs ++ ys) where
  wellFormed := h'.wellFormed
  generations := fun id => (h'.generations id).trans (h.generations id)
  target := by
    intro c hc
    obtain hc | hc := List.mem_append.mp hc
    · exact h.target c hc
    · obtain ⟨id, g, htarget, hg⟩ := h'.target c hc
      exact ⟨id, g, htarget, (h.generations id).symm.trans hg⟩
  checked := by
    intro c hc
    obtain hc | hc := List.mem_append.mp hc
    · exact h.checked c hc
    · exact h'.checked c hc
  plays := by
    intro id
    rw [strokes_append]
    exact plays_append (h.plays id) (h'.plays id)

theorem press_of_target {c : ApplicationMessage} {id other g : ℕ}
    (h : c.commandTarget = some (id, g)) (hne : other ≠ id) : c.press other = none := by
  cases c with
  | input target generation event =>
    cases h
    simp only [ApplicationMessage.press, if_neg (Ne.symm hne)]
  | _ => rfl

theorem press_input_target {c : ApplicationMessage} {id : ℕ} {p : Press InputKey}
    (h : c.press id = some p) : ∃ g event, c = .input id g event := by
  cases c with
  | input target generation event =>
    simp only [ApplicationMessage.press] at h
    split at h
    · rename_i htarget
      exact ⟨generation, event, by rw [htarget]⟩
    · cases h
  | _ => cases h

theorem strokes_of_target {id other g : ℕ}
    (h : ∀ c ∈ out, c.commandTarget = some (id, g)) (hne : other ≠ id) : strokes other out = [] :=
  List.filterMap_eq_nil_iff.mpr fun c hc => press_of_target (h c hc) hne

/-- **A turn of one window is a turn of all.** -/
theorem turn_of_window (h : a.WellFormed) {id : ℕ} {w w' : AppWindow} (hw : a.surfaces id = some w)
    (ht : AppWindow.Turn w w' out) : Turn a (a.setWindow id w') out := by
  obtain ⟨rfl, -⟩ := h id w hw
  have hset := a.setWindow_surfaces w.info.surfaceId w'
  refine ⟨?_, ?_, ?_, ?_, ?_⟩
  · intro other v hv
    rw [hset] at hv
    split at hv
    · rename_i heq
      cases hv
      exact ⟨ht.id.trans heq.symm, ht.sane⟩
    · exact h other v hv
  · intro other
    rw [generation, generation, hset]
    split
    · rename_i heq
      rw [heq, hw, Option.map_some, Option.map_some, ht.generation]
    · rfl
  · intro c hc
    exact ⟨_, _, ht.target c hc, generation_of_some hw⟩
  · intro c hc other p hp
    obtain ⟨event, heq, hcheck⟩ := ht.checked c hc other p hp
    have hother : other = w.info.surfaceId := by
      by_contra hne
      rw [press_of_target (ht.target c hc) hne] at hp
      cases hp
    rw [hother]
    exact ⟨_, event, heq, hcheck⟩
  · intro other
    rw [heldKeys, heldKeys, hset]
    by_cases heq : other = w.info.surfaceId
    · rw [if_pos heq, heq, hw]
      exact ht.plays
    · rw [if_neg heq, strokes_of_target ht.target heq]
      rfl

theorem windowEvent_turn (h : a.WellFormed) (id : ℕ) (e : WindowEvent) :
    Turn a (a.windowEvent id e).1 (a.windowEvent id e).2 := by
  unfold windowEvent
  split
  · exact Turn.refl h
  · rename_i w hw
    split
    · exact Turn.refl h
    · split
      · exact Turn.refl h
      · exact turn_of_window h hw (handle_turn (h id w hw).2 e)

theorem aboutToWait_turn (h : a.WellFormed) (id : ℕ) (resize : Option (ℕ × ℕ))
    (minimized : Option Bool) :
    Turn a (a.aboutToWait id resize minimized).1 (a.aboutToWait id resize minimized).2 := by
  unfold aboutToWait
  split
  · exact Turn.refl h
  · rename_i w hw
    exact turn_of_window h hw (wait_turn (h id w hw).2 resize minimized)

theorem releaseWindow_turn (h : a.WellFormed) (id : ℕ) :
    Turn a (a.releaseWindow id).1 (a.releaseWindow id).2 := by
  unfold releaseWindow
  split
  · exact Turn.refl h
  · rename_i w hw
    exact turn_of_window h hw (release_turn (h id w hw).2)

theorem releaseWindows_turn (h : Turn a a' out) (ids : List ℕ) :
    let r := ids.foldl (fun r id => ((r.1.releaseWindow id).1, r.2 ++ (r.1.releaseWindow id).2))
      (a', out)
    Turn a r.1 r.2 := by
  induction ids generalizing a' out with
  | nil => exact h
  | cons id ids ih => exact ih (h.trans (releaseWindow_turn h.wellFormed id))

theorem unavailable_turn (h : a.WellFormed) (id : ℕ) :
    Turn a (a.apply (.unavailable id)).1 (a.apply (.unavailable id)).2 := by
  unfold apply
  dsimp only
  split
  · exact Turn.refl h
  · rename_i w hw
    exact turn_of_window h hw ((release_turn (h id w hw).2).retitle rfl rfl rfl)

theorem host_turn (h : a.WellFormed) (os : ApplicationHostOs) :
    Turn a (a.apply (.host os)).1 (a.apply (.host os)).2 := by
  unfold apply
  dsimp only
  split
  · exact Turn.refl h
  · exact ⟨h, fun _ => rfl, fun _ hc => absurd hc List.not_mem_nil,
      fun _ hc => absurd hc List.not_mem_nil, fun _ => rfl⟩

/-- The window of a surface takes over its generation, or is created. -/
def retitled (a : App) (info : SurfaceInfo) : App :=
  a.setWindow info.surfaceId (match a.surfaces info.surfaceId with
    | some w => { w with info := { w.info with geometryGeneration := info.geometryGeneration } }
    | none => a.newWindow info)

theorem retitled_wellFormed (h : a.WellFormed) {info : SurfaceInfo}
    (hid : info.surfaceId < maxApplicationSurfaces) : (a.retitled info).WellFormed := by
  intro id w hw
  rw [retitled, setWindow_surfaces] at hw
  split at hw
  · rename_i heq
    cases hw
    split
    · rename_i v hv
      obtain ⟨hkey, hsane⟩ := h _ v hv
      exact ⟨hkey.trans heq.symm, hsane.tracked, hsane.onPage, hsane.noKeys, hsane.buttons, hsane.id⟩
    · exact ⟨heq.symm, Mapper.tracked_new _ _ _ _, fun k hk => absurd hk (Finset.notMem_empty k), rfl,
        List.nodup_nil, hid⟩
  · exact h id w hw

theorem retitled_generation (info : SurfaceInfo) (id : ℕ) :
    (a.retitled info).generation id =
      if id = info.surfaceId then some info.geometryGeneration else a.generation id := by
  rw [generation, retitled, setWindow_surfaces]
  split
  · split <;> rfl
  · rfl

theorem newWindow_heldKeys (a : App) (info : SurfaceInfo) : (a.newWindow info).heldKeys = ∅ := by
  have hremote : (Mapper.new a.client a.host a.mode a.profile).remote = ∅ :=
    (Typing.mirrored_start a.client a.host a.mode a.profile).remote.symm
  show Finset.disjSum (Mapper.new a.client a.host a.mode a.profile).remote ([] : List MouseButton).toFinset = ∅
  rw [hremote]
  rfl

theorem retitled_heldKeys (info : SurfaceInfo) (id : ℕ) :
    (a.retitled info).heldKeys id = a.heldKeys id := by
  rw [heldKeys, heldKeys, retitled, setWindow_surfaces]
  split
  · rename_i heq
    rw [heq]
    cases hw : a.surfaces info.surfaceId with
    | some w => rfl
    | none => exact newWindow_heldKeys a info
  · rfl

/-- **An update of a surface**: the window takes over the generation, and only then do the windows
send anything. -/
theorem upsert_turn (h : a.WellFormed) {info : SurfaceInfo}
    (hid : info.surfaceId < maxApplicationSurfaces) :
    Turn (a.retitled info) (a.apply (.upsert info)).1 (a.apply (.upsert info)).2 := by
  have hwf := retitled_wellFormed h hid
  refine releaseWindows_turn ?_ _
  -- the window of the surface, in its new generation
  cases hw : a.surfaces info.surfaceId with
  | none =>
    have heq : a.setWindow info.surfaceId (a.newWindow info) = a.retitled info := by
      rw [retitled, hw]
    dsimp only
    rw [heq]
    exact Turn.refl hwf
  | some w =>
    have hgen : (a.retitled info).surfaces info.surfaceId =
        some { w with info := { w.info with geometryGeneration := info.geometryGeneration } } := by
      rw [retitled, setWindow_surfaces, if_pos rfl, hw]
    have hset : ∀ v, a.setWindow info.surfaceId v = (a.retitled info).setWindow info.surfaceId v := by
      intro v
      rw [retitled, setWindow, setWindow, setWindow, Function.update_idem]
    have hwindow : AppWindow.Turn
        { w with info := { w.info with geometryGeneration := info.geometryGeneration } }
        (refresh w info).1 (refresh w info).2 := by
      have hkey := (h _ w hw).1
      have hsane := (hwf _ _ hgen).2
      have hrefresh : ∀ {t : AppWindow} {out}, AppWindow.Turn
          { w with info := { w.info with geometryGeneration := info.geometryGeneration } } t out →
          AppWindow.Turn
            { w with info := { w.info with geometryGeneration := info.geometryGeneration } }
            { t with info := info, minimized := info.minimized, available := true,
                      closeRequested := none } out := by
        intro t out ht
        obtain ⟨htr, hpage, hkeys, hbuttons, -⟩ := ht.sane
        exact ⟨⟨htr, hpage, hkeys, hbuttons, hid⟩, hkey.symm, rfl, ht.target, ht.checked, ht.plays⟩
      unfold refresh
      dsimp only
      split
      · exact hrefresh (release_turn hsane)
      · have hself := hrefresh (AppWindow.Turn.refl hsane)
        exact hself
    dsimp only
    rw [hset]
    exact turn_of_window hwf hgen hwindow

end App

end NebulaDesk
