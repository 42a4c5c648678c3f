import FabricQueue.Error
import FabricQueue.Tile.Kernel

set_option autoImplicit false

/-!
# Tile arrays

What stands behind the shim channels: buffers, routes from an endpoint to a cycle of buffers, and
kernels. A refused operation gives no new array, so the old one stays as it was.
-/

namespace FabricQueue

-- The buffers an endpoint streams to or from, one after the other and round again.
structure Route where
  -- Positions of the buffers in the array.
  buffers : List Nat
  -- Index in `buffers` of the buffer in use.
  next : Nat := 0
  deriving DecidableEq, Repr

namespace Route

def current (r : Route) : Nat :=
  r.buffers.getD r.next 0

def advance (r : Route) : Route :=
  { r with next := (r.next + 1) % r.buffers.length }

end Route

structure TileArray where
  buffers : TileBuffers := {}
  routes : List (Endpoint × Route) := []
  kernels : List AddKernel := []

namespace TileArray

def addBuffer (t : TileArray) (name : String) (words : Nat) : Except ConfigFault TileArray :=
  if words = 0 then .error (.emptyBuffer name)
  else if (t.buffers.position? name).isSome then .error (.duplicateBuffer name)
  else .ok { t with buffers := ⟨t.buffers.items.push (TileBuffer.zeroed name words)⟩ }

def position (t : TileArray) (name : String) : Except ConfigFault Nat :=
  match t.buffers.position? name with
  | some i => .ok i
  | none => .error (.unknownBuffer name)

def routeOf (t : TileArray) (e : Endpoint) : Option Route :=
  t.routes.lookup e

def hasRoute (t : TileArray) (e : Endpoint) : Bool :=
  (t.routeOf e).isSome

def setRoute (t : TileArray) (e : Endpoint) (r : Route) : TileArray :=
  { t with routes := (e, r) :: t.routes.filter fun entry => entry.1 ≠ e }

/-- Connect an endpoint to a cycle of buffers, from its first buffer on. -/
def route (t : TileArray) (e : Endpoint) (names : List String) : Except ConfigFault TileArray := do
  if names.isEmpty then
    throw (.emptyRoute e)
  let buffers ← names.mapM t.position
  return t.setRoute e { buffers }

def addKernel (t : TileArray) (k : AddKernel) : TileArray :=
  { t with kernels := t.kernels ++ [k] }

/-- Position of the buffer that holds a word. The refusal of a word behind the end names its byte
offset, which has to be a 64-bit number for that. -/
def locate (t : TileArray) (name : String) (index : Nat) : Except Failure Nat :=
  match t.position name with
  | .error fault => .error (.error (.invalidConfig fault))
  | .ok i =>
    let limit := (t.buffers.items[i]?.map TileBuffer.byteLength).getD 0
    if UInt64.size ≤ 4 * index then .error (.overflow .multiplication)
    else if limit < 4 * index + 4 then .error (.error (.outOfBounds (4 * index) 4 limit))
    else .ok i

def readBuffer (t : TileArray) (name : String) (index : Nat) : Except Failure UInt32 := do
  let i ← t.locate name index
  return (t.buffers.items[i]?.map fun b => b.word index).getD 0

def writeBuffer (t : TileArray) (name : String) (index : Nat) (value : UInt32) :
    Except Failure TileArray := do
  let i ← t.locate name index
  return { t with buffers := t.buffers.modify i fun b => b.setWord index value }

/-- Overwrite the leading words of a buffer; nothing without a buffer of that name. -/
def load (t : TileArray) (name : String) (words : List UInt32) : Option TileArray :=
  (t.buffers.position? name).map fun i =>
    { t with buffers := t.buffers.modify i fun b => b.load words }

/-- Set a lock, which also puts the cursor back. -/
def setFull (t : TileArray) (name : String) (full : Bool) : Except ConfigFault TileArray := do
  let i ← t.position name
  return { t with buffers := t.buffers.modify i fun b => b.setFull full }

def isFull (t : TileArray) (name : String) : Bool :=
  t.buffers.isFull name

def ready (direction : Direction) (b : TileBuffer) : Bool :=
  match direction with
  | .hostToDevice => !b.full
  | .deviceToHost => b.full

/-- How many of `limit` bytes the endpoint can move at once, and whether they reach the end of its
buffer. No byte can move while the lock stands against it. -/
def capacity (t : TileArray) (e : Endpoint) (r : Route) (limit : Nat) : Nat × Bool :=
  match t.buffers.items[r.current]? with
  | some b =>
    if ready e.direction b then
      let count := min limit b.room
      (count, b.ends count)
    else (0, false)
  | none => (0, false)

/-- Change the buffer in use, and go on to the next one if it came to its end. -/
def pass (t : TileArray) (e : Endpoint) (r : Route) (ended : Bool)
    (change : TileBuffer → TileBuffer) : TileArray :=
  let t := { t with buffers := t.buffers.modify r.current change }
  if ended then t.setRoute e r.advance else t

/-- Stream bytes to the buffer of an endpoint. Gives back how many it took. -/
def fill (t : TileArray) (e : Endpoint) (bytes : List UInt8) :
    Except StateFault (Nat × TileArray) :=
  match t.routeOf e with
  | none => .error (.noRoute e)
  | some r =>
    match t.capacity e r bytes.length with
    | (0, false) => .ok (0, t)
    | (count, ended) => .ok (count, t.pass e r ended fun b => b.fill (bytes.take count))

/-- Stream up to `limit` bytes from the buffer of an endpoint. -/
def drain (t : TileArray) (e : Endpoint) (limit : Nat) :
    Except StateFault (List UInt8 × TileArray) :=
  match t.routeOf e with
  | none => .error (.noRoute e)
  | some r =>
    match t.capacity e r limit with
    | (0, false) => .ok ([], t)
    | (count, ended) =>
      let bytes := (t.buffers.items[r.current]?.map fun b => b.front count).getD []
      .ok (bytes, t.pass e r ended fun b => b.drain count)

def runKernels (t : TileArray) : Bool × TileArray :=
  let (moved, kernels, buffers) := AddKernel.stepAll t.kernels t.buffers
  (moved, { t with kernels, buffers })

end TileArray

end FabricQueue
