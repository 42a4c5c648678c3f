import FabricQueue.Fabric.HostMap
import FabricQueue.Packet.Chunks
import FabricQueue.Queue.Consumer
import FabricQueue.Tile.TileArray

set_option autoImplicit false

namespace FabricQueue

-- A packet that will never complete.
structure Fault where
  index : UInt64
  cause : Error
  deriving DecidableEq, Repr

structure FabricStatus where
  -- Herds declared so far, the latest declaration of each.
  herds : List Herd := []
  deviceColumns : Option UInt8 := none
  retired : Nat := 0
  bytesMoved : Nat := 0
  faults : List Fault := []
  deriving DecidableEq, Repr

-- Where a fetched packet stands.
inductive Progress where
  | running
  | done
  | faulted
  deriving DecidableEq, Repr

-- A transfer under way.
structure Job where
  index : UInt64
  endpoint : Endpoint
  chunks : Chunks
  -- What is left of the run that was begun.
  rest : Option Run := none
  deriving DecidableEq, Repr

-- The transfers of one endpoint, in index order. Only the first one streams.
structure Fifo where
  endpoint : Endpoint
  jobs : List Job
  deriving DecidableEq, Repr

structure InFlight where
  index : UInt64
  progress : Progress
  deriving DecidableEq, Repr

structure Fabric where
  consumer : Consumer
  hosts : HostMap
  tiles : TileArray
  status : FabricStatus := {}
  nextFetch : UInt64
  inFlight : List InFlight := []
  fifos : List Fifo := []
  -- Turns false for good when a pass fails.
  running : Bool := true

namespace FabricStatus

/-- Enter a herd behind the others; an earlier herd of its number goes. -/
def declare (s : FabricStatus) (h : Herd) : FabricStatus :=
  { s with herds := s.herds.filter (fun old => old.id ≠ h.id) ++ [h] }

def fault (s : FabricStatus) (index : UInt64) (cause : Error) : FabricStatus :=
  { s with faults := s.faults ++ [⟨index, cause⟩] }

end FabricStatus

namespace Job

/-- Bytes still to move. -/
def bytesLeft (j : Job) : Nat :=
  (j.rest.map fun run => run.length.toNat).getD 0 + j.chunks.remaining * j.chunks.run.toNat

/-- The run to go on with, if the transfer is not finished. -/
def take (j : Job) : Except Failure (Option (Run × Job)) :=
  match j.rest with
  | some run => .ok (some (run, { j with rest := none }))
  | none =>
    match j.chunks.next with
    | .ok (some (run, chunks)) => .ok (some (run, { j with chunks }))
    | .ok none => .ok none
    | .error cause => .error (.overflow cause)

end Job

def Fifo.bytesLeft (q : Fifo) : Nat :=
  q.jobs.foldr (fun job left => job.bytesLeft + left) 0

namespace Fabric

def bytesLeft (f : Fabric) : Nat :=
  f.fifos.foldr (fun q left => q.bytesLeft + left) 0

/-- Take up the queue at the start of a region, from its read index on. -/
def spawn (r : Region) (hosts : HostMap) (tiles : TileArray) : Access Fabric := do
  let consumer ← Consumer.attach r
  let nextFetch ← consumer.readIndex
  return { consumer, hosts, tiles, nextFetch }

def push (f : Fabric) (job : Job) : Fabric :=
  if f.fifos.any fun q => q.endpoint == job.endpoint then
    { f with fifos := f.fifos.map fun q =>
        if q.endpoint = job.endpoint then { q with jobs := q.jobs ++ [job] } else q }
  else { f with fifos := f.fifos ++ [⟨job.endpoint, [job]⟩] }

def fault (f : Fabric) (index : UInt64) (cause : Error) : Progress × Fabric :=
  (.faulted, { f with status := f.status.fault index cause })

/-- Start a transfer. Its whole extent has to lie in one host region. -/
def acceptTransfer (f : Fabric) (index : UInt64) (t : Transfer) :
    Except Failure (Progress × Fabric) :=
  if !f.tiles.hasRoute t.endpoint then
    .ok (f.fault index (.invalidState (.noRoute t.endpoint)))
  else
    match f.hosts.resolve t.address t.extent with
    | .error e => .ok (f.fault index e)
    | .ok _ =>
      match t.byteCount with
      | .error cause => .error (.overflow cause)
      | .ok 0 => .ok (.done, f)
      | .ok _ => .ok (.running, f.push { index, endpoint := t.endpoint, chunks := t.chunks })

/-- Act on a fetched record: declarations are done at once, transfers begin. -/
def accept (f : Fabric) (index : UInt64) (record : Record) : Except Failure (Progress × Fabric) :=
  match Command.decode record with
  | .error cause => .ok (f.fault index (.decode index cause))
  | .ok (.herdInit h) => .ok (.done, { f with status := f.status.declare h })
  | .ok (.deviceInit columns) =>
    .ok (.done, { f with status := { f.status with deviceColumns := some columns } })
  | .ok (.transfer t) => f.acceptTransfer index t

def mark (f : Fabric) (index : UInt64) (progress : Progress) : Fabric :=
  { f with inFlight := f.inFlight.map fun entry =>
      if entry.index = index then { entry with progress } else entry }

end Fabric

end FabricQueue
