/-
The client's surfaces and their pixel budget (`nebula-client/src/application.rs`).

The network task of the client applies each lifecycle message of the agent to its
own registry, after checking the size of the surface and the sum over all
surfaces; whatever it refuses ends the session with the text returned here.
-/
import NebulaDesk.Agent.SurfacesRuns

namespace NebulaDesk

open Std (ExtTreeMap)

def maxSurfacePixels : ℕ := 16777216
def maxSessionPixels : ℕ := 67108864

/-- What the network task keeps of the surfaces: the registry, and the pixels of
each decoder. -/
structure ClientSurfaces where
  registry : SurfaceRegistry
  pixels : ExtTreeMap ℕ ℕ

namespace ClientSurfaces

/-- After the agent's hello. -/
def new : ClientSurfaces := ⟨Surfaces.new.registry, ∅⟩

/-- The pixels of the surfaces other than `id`. -/
def others (c : ClientSurfaces) (id : ℕ) : ℕ :=
  ((c.pixels.toList.filter (·.1 ≠ id)).map (·.2)).sum

def onUpsert (c : ClientSurfaces) (surface : SurfaceInfo) : Except String ClientSurfaces :=
  let pixels := surface.width * surface.height
  if pixels > maxSurfacePixels then
    .error "Application window exceeds the supported capture size"
  else if c.others surface.surfaceId + pixels > maxSessionPixels then
    .error "Application windows exceed the session video memory budget"
  else
    match c.registry.upsert surface with
    | (.error _, _) => .error "Invalid application surface lifecycle"
    | (.ok (), registry) => .ok ⟨registry, c.pixels.insert surface.surfaceId pixels⟩

def onRemove (c : ClientSurfaces) (id : ℕ) : Except String ClientSurfaces :=
  match c.registry.remove id with
  | (.error _, _) => .error "Invalid application surface removal"
  | (.ok (), registry) => .ok ⟨registry, c.pixels.erase id⟩

/-- One control message of a session that has been acknowledged. -/
def onMessage (c : ClientSurfaces) : ApplicationMessage → Except String ClientSurfaces
  | .surfaceUpsert surface => c.onUpsert surface
  | .surfaceRemove id => c.onRemove id
  | _ => .error "Unexpected application control message"

/-- The messages of the agent, in order. -/
def feed (c : ClientSurfaces) (messages : List ApplicationMessage) : Except String ClientSurfaces :=
  messages.foldlM onMessage c

variable {c : ClientSurfaces}

theorem feed_append (ms ns : List ApplicationMessage) :
    c.feed (ms ++ ns) = (c.feed ms).bind (·.feed ns) := by
  unfold feed
  rw [List.foldlM_append]
  rfl

theorem feed_append_of_ok {ms ns : List ApplicationMessage} {c' : ClientSurfaces}
    (h : c.feed ms = .ok c') : c.feed (ms ++ ns) = c'.feed ns := by
  rw [feed_append, h]
  rfl

theorem feed_singleton (m : ApplicationMessage) : c.feed [m] = c.onMessage m := by
  unfold feed
  rw [List.foldlM_cons]
  cases c.onMessage m <;> rfl

end ClientSurfaces

end NebulaDesk
