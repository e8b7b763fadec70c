/-
Application messages (`ndp-proto/src/application.rs`): surface lifecycle and
scoped client commands, their structural validation, and the registry's check
of a command against the live surface it names.
-/
import NebulaDesk.Proto.Input
import NebulaDesk.Proto.Surface

namespace NebulaDesk

/-- Stable public failure categories. -/
inductive ApplicationFailureReason
  | launchFailed | backendUnavailable | permissionDenied | isolationUnavailable
  | surfaceLimitReached | surfaceUnavailable | protocolMismatch
deriving DecidableEq

inductive ApplicationHostOs
  | unknown | macos | windows | linux
deriving DecidableEq

/-- Optional shortcut semantics. -/
inductive ApplicationKeyboardProfile
  | physical | editing | terminal
deriving DecidableEq

/-- Reliable ordered surface lifecycle and scoped commands. -/
inductive ApplicationMessage
  | startupFailed (reason : ApplicationFailureReason)
  | surfaceUnavailable (surfaceId : ℕ) (reason : ApplicationFailureReason)
  | hello (protocolVersion maxSurfaces : ℕ) (hostOs : ApplicationHostOs)
      (keyboardProfile : ApplicationKeyboardProfile)
  | surfaceUpsert (surface : SurfaceInfo)
  | surfaceRemove (surfaceId : ℕ)
  | focus (surfaceId geometryGeneration : ℕ)
  | resize (surfaceId geometryGeneration width height : ℕ)
  | close (surfaceId geometryGeneration : ℕ)
  | minimize (surfaceId geometryGeneration : ℕ)
  | requestKeyframe (surfaceId geometryGeneration : ℕ)
  | input (surfaceId geometryGeneration : ℕ) (event : List UInt8)
deriving DecidableEq

namespace ApplicationMessage

def commandTarget : ApplicationMessage → Option (ℕ × ℕ)
  | focus id generation
  | resize id generation _ _
  | close id generation
  | minimize id generation
  | requestKeyframe id generation
  | input id generation _ => some (id, generation)
  | _ => none

def checkCommand (id generation : ℕ) : Except ProtoError Unit :=
  if id ≥ maxApplicationSurfaces ∨ generation = 0 then .error invalid else .ok ()

/-- Whether a scoped input event targets this surface with finite, in-range values. -/
def checkInput (id : ℕ) (event : List UInt8) : Except ProtoError Unit := do
  let (ev, _) ← InputEvent.decode event
  if ev.display ≠ id
      ∨ !ev.x.isFinite ∨ !ev.y.isFinite
      ∨ !ev.scrollX.isFinite ∨ !ev.scrollY.isFinite
      ∨ (ev.kind.isPointer ∧
          (!(F32.le ⟨0⟩ ev.x && ev.x.le ⟨0x3f800000⟩)
            ∨ !(F32.le ⟨0⟩ ev.y && ev.y.le ⟨0x3f800000⟩))) then
    throw invalid

def validate : ApplicationMessage → Except ProtoError Unit
  | startupFailed _ => .ok ()
  | hello protocolVersion maxSurfaces _ _ =>
    if protocolVersion ≠ applicationProtocolVersion
        ∨ ¬ (1 ≤ maxSurfaces ∧ maxSurfaces ≤ maxApplicationSurfaces) then .error invalid
    else .ok ()
  | surfaceUpsert surface => surface.validate
  | surfaceRemove id | surfaceUnavailable id _ =>
    if id ≥ maxApplicationSurfaces then .error invalid else .ok ()
  | focus id generation | close id generation | minimize id generation
  | requestKeyframe id generation => checkCommand id generation
  | resize id generation width height => do
    checkCommand id generation
    if !validSize width height then throw invalid
  | input id generation event => do
    checkCommand id generation
    checkInput id event

end ApplicationMessage

def SurfaceRegistry.validateCommand (r : SurfaceRegistry) (message : ApplicationMessage) :
    Except ProtoError SurfaceInfo := do
  message.validate
  match message.commandTarget with
  | none => throw invalid
  | some (id, generation) =>
    match r.live[id]? with
    | none => throw invalid
    | some surface =>
      if generation ≠ surface.geometryGeneration then throw invalid
      return surface

theorem SurfaceRegistry.validateCommand_ok {r : SurfaceRegistry} {message : ApplicationMessage}
    {surface : SurfaceInfo} (h : r.validateCommand message = .ok surface) :
    ∃ id, message.commandTarget = some (id, surface.geometryGeneration) ∧
      r.live[id]? = some surface := by
  simp only [validateCommand, bind, Except.bind] at h
  split at h
  · cases h
  · split at h
    · cases h
    · rename_i id generation htarget
      split at h
      · cases h
      · rename_i s hs
        by_cases hg : generation = s.geometryGeneration
        · subst hg
          simp only [ne_eq, not_true_eq_false, if_false, pure, Except.pure,
            Except.ok.injEq] at h
          subst h
          exact ⟨id, htarget, hs⟩
        · simp [hg] at h

end NebulaDesk
