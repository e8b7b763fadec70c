/-
The agent's surface reconciliation (`nebula-agent/src/application.rs`).

`Surfaces.reconcile` turns a snapshot of native windows into lifecycle messages:
windows that disappeared are retired, children before parents, then the
snapshot is announced, parents before children.  Each call returns the state it
leaves beside its result; a panic of the source is a `Failure` of its own.
-/
import NebulaDesk.Proto.Application

namespace NebulaDesk

open Std (ExtTreeMap)

structure NativeSurface where
  nativeId : ℕ
  parent : Option ℕ
  title : Text
  width : ℕ
  height : ℕ
  scale : F32
  geometryGeneration : ℕ
  modal : Bool
  minimized : Bool
deriving DecidableEq

/-- The derived comparison `==`, which compares the scales as numbers. -/
def NativeSurface.eq (a b : NativeSurface) : Bool :=
  a.nativeId = b.nativeId && a.parent = b.parent && a.title = b.title && a.width = b.width
    && a.height = b.height && a.scale.feq b.scale
    && a.geometryGeneration = b.geometryGeneration && a.modal = b.modal
    && a.minimized = b.minimized

/-- How a call on `Surfaces` can fail to return. -/
inductive Failure
  | surfaceLimit
  | text (message : String)
  | proto (error : ProtoError)
  | panic (message : String)
deriving DecidableEq

/-- Session-local mapping. IDs are consumed, never recycled. -/
structure Surfaces where
  registry : SurfaceRegistry
  native : ExtTreeMap ℕ ℕ
  live : ExtTreeMap ℕ NativeSurface
  retired : Finset ℕ
  next : ℕ

namespace Surfaces

def new : Surfaces where
  registry := ⟨maxApplicationSurfaces, fun _ => false, ∅⟩
  native := ∅
  live := ∅
  retired := ∅
  next := 0

/-- Whether no live surface has this one as its parent. -/
def isLeaf (st : Surfaces) (id : ℕ) : Bool :=
  !st.live.toList.any fun (_, s) => s.parent.bind (st.native[·]?) = some id

/-- Retire one leaf: one round of the first loop of `reconcile`. -/
def retire (st : Surfaces) (leaf : ℕ) : Except Failure ApplicationMessage × Surfaces :=
  match st.registry.remove leaf with
  | (.error e, registry) => (.error (.proto e), { st with registry := registry })
  | (.ok (), registry) =>
    match st.live[leaf]? with
    | none => (.error (.panic "live leaf"), { st with registry := registry })
    | some old =>
      (.ok (.surfaceRemove leaf),
        { st with
          registry := registry
          live := st.live.erase leaf
          native := st.native.erase old.nativeId
          retired := insert old.nativeId st.retired })

/-- The first loop: retire children before parents. -/
def retireAll : ℕ → Surfaces → List ℕ → List ApplicationMessage →
    Except Failure (List ApplicationMessage) × Surfaces
  | 0, st, _, messages => (.ok messages, st)
  | fuel + 1, st, removed, messages =>
    if removed.isEmpty then (.ok messages, st)
    else
      match removed.find? st.isLeaf with
      | none => (.error (.text "invalid native parent removal"), st)
      | some leaf =>
        match st.retire leaf with
        | (.error e, st) => (.error e, st)
        | (.ok message, st) => retireAll fuel st (removed.erase leaf) (messages ++ [message])

/-- Pop characters while the title is over its byte limit. -/
def trimTitle : ℕ → Text → Text
  | 0, title => title
  | fuel + 1, title =>
    if title.len > maxSurfaceTitleBytes then trimTitle fuel title.dropLast else title

/-- The surface with its title cleaned for the wire. -/
def clean (surface : NativeSurface) : NativeSurface :=
  let title := surface.title.filter (!isControl ·)
  { surface with title := trimTitle title.length title }

/-- The wire form of a native surface under this id. -/
def infoOf (st : Surfaces) (id : ℕ) (surface : NativeSurface) : SurfaceInfo where
  surfaceId := id
  geometryGeneration := surface.geometryGeneration
  title := surface.title
  width := surface.width
  height := surface.height
  scale := surface.scale
  parentSurfaceId := surface.parent.bind (st.native[·]?)
  modal := surface.modal
  minimized := surface.minimized

/-- The id of a native window, allocated on its first appearance. -/
def allocate (st : Surfaces) (nativeId : ℕ) : Except Failure ℕ × Surfaces :=
  match st.native[nativeId]? with
  | some id => (.ok id, st)
  | none =>
    if st.next < maxApplicationSurfaces then
      (.ok st.next, { st with
        next := st.next + 1
        native := st.native.insert nativeId st.next })
    else (.error .surfaceLimit, st)

/-- Announce one surface: one round of the second loop of `reconcile`. -/
def announce (st : Surfaces) (surface : NativeSurface) :
    Except Failure (List ApplicationMessage) × Surfaces :=
  let surface := clean surface
  match st.allocate surface.nativeId with
  | (.error e, st) => (.error e, st)
  | (.ok id, st) =>
    let info := st.infoOf id surface
    match st.registry.upsert info with
    | (.error e, registry) => (.error (.proto e), { st with registry := registry })
    | (.ok (), registry) =>
      let st := { st with registry := registry }
      if st.live[id]?.any fun s => s.eq surface then (.ok [], st)
      else (.ok [.surfaceUpsert info], { st with live := st.live.insert id surface })

/-- The second loop: announce each surface once its parent is known. -/
def announceAll : ℕ → Surfaces → List NativeSurface → List ApplicationMessage →
    Except Failure (List ApplicationMessage) × Surfaces
  | 0, st, _, messages => (.ok messages, st)
  | fuel + 1, st, pending, messages =>
    if pending.isEmpty then (.ok messages, st)
    else
      match pending.findIdx? fun s => s.parent.all st.native.contains with
      | none => (.error (.text "unknown or cyclic native parent"), st)
      | some position =>
        match pending[position]? with
        | none => (.ok messages, st)
        | some surface =>
          match st.announce surface with
          | (.error e, st) => (.error e, st)
          | (.ok sent, st) => announceAll fuel st (pending.eraseIdx position) (messages ++ sent)

def captureArea (snapshot : List NativeSurface) : ℕ :=
  (snapshot.map fun s => s.width * s.height).foldl (fun a b => min (a + b) (2 ^ 64 - 1)) 0

def reconcile (st : Surfaces) (snapshot : List NativeSurface) :
    Except Failure (List ApplicationMessage) × Surfaces :=
  if ¬ snapshot.length ≤ maxApplicationSurfaces then (.error .surfaceLimit, st)
  else if ¬ captureArea snapshot ≤ 64 * 1024 * 1024 then
    (.error (.text "aggregate application capture dimensions exceed memory budget"), st)
  else
    let present := (snapshot.map (·.nativeId)).toFinset
    if present.card ≠ snapshot.length then (.error (.text "duplicate native surface"), st)
    else if ¬ Disjoint present st.retired then
      (.error (.text "native surface identity reused"), st)
    else
      let removed := (st.live.toList.filter fun (_, s) => s.nativeId ∉ present).map (·.1)
      match retireAll removed.length st removed [] with
      | (.error e, st) => (.error e, st)
      | (.ok messages, st) => announceAll snapshot.length st snapshot messages

/-- The native window a client command addresses. -/
def target (st : Surfaces) (message : ApplicationMessage) : Except Failure ℕ :=
  match st.registry.validateCommand message with
  | .error e => .error (.proto e)
  | .ok info =>
    match st.live[info.surfaceId]? with
    | none => .error (.panic "registry mirrors live surfaces")
    | some surface => .ok surface.nativeId

end Surfaces

end NebulaDesk
