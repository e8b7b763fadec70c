/-
Application surfaces and their registry (`ndp-proto/src/application.rs`).

`SurfaceRegistry` is the bounded lifecycle state shared by the client and the
agent: the surfaces now live, each under its id, and the ids ever used.  A call
returns the registry it leaves beside its result, so that what a refused call
leaves behind can be stated.
-/
import NebulaDesk.Lib.Float32
import NebulaDesk.Lib.Forest
import NebulaDesk.Proto.Header

namespace NebulaDesk

open Forest
open Std (ExtTreeMap)

/-- A Rust string, as its characters. -/
abbrev Text := List Char

/-- Length of a text in UTF-8 bytes. -/
def Text.len (t : Text) : ℕ := (t.map Char.utf8Size).sum

/-- Unicode general category `Cc`. -/
def isControl (c : Char) : Bool := c.toNat < 0x20 || (0x7f ≤ c.toNat && c.toNat ≤ 0x9f)

def applicationProtocolVersion : ℕ := 1
/-- IDs are bounded and never reused, including after a surface closes. -/
def maxApplicationSurfaces : ℕ := 32
/-- Bound untrusted native window titles by UTF-8 byte length. -/
def maxSurfaceTitleBytes : ℕ := 1024
def maxSurfaceDimension : ℕ := 16384

def invalid : ProtoError := .invalidValue "application message" "invalid surface state"

/-- A native application window. -/
structure SurfaceInfo where
  surfaceId : ℕ
  geometryGeneration : ℕ
  title : Text
  width : ℕ
  height : ℕ
  scale : F32
  parentSurfaceId : Option ℕ
  modal : Bool
  minimized : Bool
deriving DecidableEq

def validSize (width height : ℕ) : Bool :=
  1 ≤ width && width ≤ maxSurfaceDimension && 1 ≤ height && height ≤ maxSurfaceDimension

/-- The bounds of the scale, `0.25` and `8.0`. -/
def minScale : F32 := ⟨0x3e800000⟩
def maxScale : F32 := ⟨0x41000000⟩

/-- Bounded, finite metadata. -/
def SurfaceInfo.validate (s : SurfaceInfo) : Except ProtoError Unit :=
  if s.surfaceId ≥ maxApplicationSurfaces
      ∨ s.geometryGeneration = 0
      ∨ s.title.len > maxSurfaceTitleBytes
      ∨ s.title.any isControl
      ∨ !validSize s.width s.height
      ∨ !s.scale.isFinite
      ∨ !(minScale.le s.scale && s.scale.le maxScale)
      ∨ s.parentSurfaceId.any fun p => p ≥ maxApplicationSurfaces || p = s.surfaceId then
    .error invalid
  else .ok ()

/-- Bounded lifecycle state shared by native clients and agent command dispatch. -/
structure SurfaceRegistry where
  maxSurfaces : ℕ
  used : ℕ → Bool
  live : ExtTreeMap ℕ SurfaceInfo

namespace SurfaceRegistry

/-- Create only after negotiating a valid application Hello. -/
def new (maxSurfaces : ℕ) : Except ProtoError SurfaceRegistry :=
  if 1 ≤ maxSurfaces ∧ maxSurfaces ≤ maxApplicationSurfaces then
    .ok ⟨maxSurfaces, fun _ => false, ∅⟩
  else .error invalid

/-- Whether the geometry of a live surface changes without a newer generation. -/
def staleGeometry (r : SurfaceRegistry) (surface : SurfaceInfo) : Bool :=
  match r.live[surface.surfaceId]? with
  | none => false
  | some previous =>
    let changedGeometry := previous.width ≠ surface.width
      || previous.height ≠ surface.height
      || !previous.scale.feq surface.scale
    surface.geometryGeneration < previous.geometryGeneration
      || (changedGeometry && surface.geometryGeneration = previous.geometryGeneration)

/-- The parent walk of `upsert`: at most `fuel` steps up from `parent`. -/
def walk (r : SurfaceRegistry) (id : ℕ) : ℕ → Option ℕ → Except ProtoError (Option ℕ)
  | 0, parent => .ok parent
  | _ + 1, none => .ok none
  | fuel + 1, some parentId =>
    if parentId = id then .error invalid
    else
      match r.live[parentId]? with
      | none => .error invalid
      | some p => r.walk id fuel p.parentSurfaceId

/-- Apply metadata atomically; reject ID reuse, cycles and stale geometry. -/
def upsert (r : SurfaceRegistry) (surface : SurfaceInfo) :
    Except ProtoError Unit × SurfaceRegistry :=
  match surface.validate with
  | .error e => (.error e, r)
  | .ok () =>
    if surface.surfaceId ≥ r.maxSurfaces
        ∨ (r.used surface.surfaceId ∧ surface.surfaceId ∉ r.live) then (.error invalid, r)
    else if r.staleGeometry surface then (.error invalid, r)
    else
      match r.walk surface.surfaceId maxApplicationSurfaces surface.parentSurfaceId with
      | .error e => (.error e, r)
      | .ok (some _) => (.error invalid, r)
      | .ok none =>
        (.ok (), { r with
          used := Function.update r.used surface.surfaceId true
          live := r.live.insert surface.surfaceId surface })

/-- Remove a leaf surface permanently. -/
def remove (r : SurfaceRegistry) (surfaceId : ℕ) : Except ProtoError Unit × SurfaceRegistry :=
  if r.live.toList.any (fun (_, s) => s.parentSurfaceId = some surfaceId)
      || !r.live.contains surfaceId then (.error invalid, r)
  else (.ok (), { r with live := r.live.erase surfaceId })

/-- The parent pointer of each live surface. -/
def up (r : SurfaceRegistry) (id : ℕ) : Option ℕ := r.live[id]?.bind (·.parentSurfaceId)

/-- What every registry keeps. -/
structure Inv (r : SurfaceRegistry) : Prop where
  bounded : 1 ≤ r.maxSurfaces ∧ r.maxSurfaces ≤ maxApplicationSurfaces
  keyed : ∀ (id : ℕ) (s : SurfaceInfo), r.live[id]? = some s →
    s.surfaceId = id ∧ id < r.maxSurfaces ∧ r.used id = true
  valid : ∀ (id : ℕ) (s : SurfaceInfo), r.live[id]? = some s → s.validate = .ok ()
  parents : ∀ (id : ℕ) (s : SurfaceInfo) (p : ℕ), r.live[id]? = some s → s.parentSurfaceId = some p → p ∈ r.live
  forest : WellFounded (Parent r.up)

variable {r : SurfaceRegistry} {surface : SurfaceInfo}

theorem inv_new {n : ℕ} (h : new n = .ok r) : r.Inv ∧ r.maxSurfaces = n := by
  unfold new at h
  split at h
  · rename_i hb
    cases h
    refine ⟨⟨hb, by simp, by simp, by simp, ?_⟩, rfl⟩
    exact ⟨fun a => ⟨a, fun p hp => by simp [Parent, up] at hp⟩⟩
  · cases h

/-- A successful walk climbed to a root along live parents, avoiding `id`. -/
theorem avoids_of_walk {id : ℕ} {fuel : ℕ} {p : ℕ} (h : r.walk id fuel (some p) = .ok none) :
    Avoids r.up id p ∧ p ∈ r.live := by
  induction fuel generalizing p with
  | zero => cases h
  | succ fuel ih =>
    unfold walk at h
    split at h
    · cases h
    · rename_i hne
      split at h
      · cases h
      · rename_i s hs
        have hmem : p ∈ r.live := ExtTreeMap.mem_iff_isSome_getElem?.mpr (by rw [hs]; rfl)
        have hup : r.up p = s.parentSurfaceId := by rw [up, hs]; rfl
        cases hq : s.parentSurfaceId with
        | none => exact ⟨.root hne (hup.trans hq), hmem⟩
        | some q =>
          rw [hq] at h
          exact ⟨.step hne (hup.trans hq) (ih h).1, hmem⟩

variable {r' : SurfaceRegistry}

/-- Everything an accepted `upsert` checked, and the registry it leaves. -/
theorem upsert_ok (h : r.upsert surface = (.ok (), r')) :
    surface.validate = .ok () ∧ surface.surfaceId < r.maxSurfaces ∧
      (r.used surface.surfaceId = true → surface.surfaceId ∈ r.live) ∧
      r.staleGeometry surface = false ∧
      r.walk surface.surfaceId maxApplicationSurfaces surface.parentSurfaceId = .ok none ∧
      r' = { r with
        used := Function.update r.used surface.surfaceId true
        live := r.live.insert surface.surfaceId surface } := by
  unfold upsert at h
  split at h
  · cases h
  · rename_i hv
    split at h
    · cases h
    · rename_i hid
      push Not at hid
      split at h
      · cases h
      · rename_i hst
        split at h
        · cases h
        · cases h
        · rename_i hw
          exact ⟨hv, hid.1, hid.2, by simpa using hst, hw, (Prod.mk.inj h).2.symm⟩

/-- A refused `upsert` leaves the registry as it was. -/
theorem upsert_error {e : ProtoError} (h : r.upsert surface = (.error e, r')) : r' = r := by
  unfold upsert at h
  split at h
  · exact (Prod.mk.inj h).2.symm
  · split at h
    · exact (Prod.mk.inj h).2.symm
    · split at h
      · exact (Prod.mk.inj h).2.symm
      · split at h
        · exact (Prod.mk.inj h).2.symm
        · exact (Prod.mk.inj h).2.symm
        · cases h

/-- An accepted `remove` took a live surface that no live surface names. -/
theorem remove_ok {id : ℕ} (h : r.remove id = (.ok (), r')) :
    id ∈ r.live ∧ (∀ (c : ℕ) (s : SurfaceInfo), r.live[c]? = some s → s.parentSurfaceId ≠ some id) ∧
      r' = { r with live := r.live.erase id } := by
  unfold remove at h
  split at h
  · cases h
  · rename_i hc
    simp only [Bool.or_eq_true, Bool.not_eq_true', not_or, Bool.not_eq_true,
      Bool.not_eq_false, List.any_eq_false, decide_eq_true_eq] at hc
    refine ⟨hc.2, fun c s hs => ?_, (Prod.mk.inj h).2.symm⟩
    exact hc.1 (c, s) (ExtTreeMap.mem_toList_iff_getElem?_eq_some.mpr hs)

theorem remove_error {id : ℕ} {e : ProtoError} (h : r.remove id = (.error e, r')) : r' = r := by
  unfold remove at h
  split at h
  · exact (Prod.mk.inj h).2.symm
  · cases h

end SurfaceRegistry

end NebulaDesk
