import FabricQueue.Fabric.Stream

set_option autoImplicit false

/-!
# Passes

A pass fetches what was published, streams, and retires finished packets in index order. The order
in which it visits the FIFOs is an argument. A pass that fails stops the fabric; what it did stays
done.
-/

namespace FabricQueue

-- The order in which a pass visits the FIFOs.
abbrev Order := List Fifo → List Fifo

namespace Plant

/-- Fetch up to `count` packets from `nextFetch` on. Tells whether there were any. -/
def fetchNext : (count : Nat) → Work Bool
  | 0 => return false
  | count + 1 => do
    let fabric := (← get).fabric
    let index := fabric.nextFetch
    match ← onMemory (fabric.consumer.fetch index) with
    | none => return false
    | some record =>
      let progress ← onFabric fun f => f.accept index record
      update fun f => { f with
        inFlight := f.inFlight ++ [⟨index, progress⟩]
        nextFetch := index + 1 }
      let _ ← fetchNext count
      return true

/-- Fetch the published packets, up to the first whose header is not active. -/
def fetch : Work Bool := do
  let fabric := (← get).fabric
  let published ← onMemory fabric.consumer.published
  fetchNext (published.toNat - fabric.nextFetch.toNat)

/-- Enter what streaming brought about in the status and in the packets in flight. -/
def settleTally (tally : Tally) : Work Unit := do
  if 0 < tally.bytes then
    let bytesMoved ← count (← get).fabric.status.bytesMoved tally.bytes
    update fun f => { f with status := { f.status with bytesMoved } }
  update fun f => tally.finished.foldl (fun f index => f.mark index .done) f
  update fun f => tally.failed.foldl (fun f entry =>
    let (progress, f) := f.fault entry.1 entry.2
    f.mark entry.1 progress) f

def execute (order : Order) : Work Bool := do
  let (fifos, tally) ← streamFifos (order (← get).fabric.fifos) {}
  update fun f => { f with fifos }
  let stepped ← onTiles fun t => .ok t.runKernels
  settleTally tally
  return tally.moved || stepped

/-- Retire the finished packets at the front. Each is counted before the read index moves. -/
def retireFront : List InFlight → Work Bool
  | ⟨index, .done⟩ :: rest => do
    update fun f => { f with status := { f.status with retired := f.status.retired + 1 } }
    onMemory ((← get).fabric.consumer.retire index)
    update fun f => { f with inFlight := rest }
    let _ ← retireFront rest
    return true
  | _ => return false

/-- One pass. Tells whether anything moved. -/
def pass (order : Order) : Work Bool := do
  let fetched ← fetch
  let moved ← execute order
  let retired ← retireFront (← get).fabric.inFlight
  return fetched || moved || retired

/-- One pass of a fabric that is running; a pass that fails stops it. -/
def poll (order : Order) (p : Plant) : Bool × Plant :=
  if p.fabric.running then
    match pass order p with
    | .ok moved p => (moved, p)
    | .error _ ⟨fabric, memory⟩ => (true, ⟨{ fabric with running := false }, memory⟩)
  else (false, p)

/-- More passes than a fabric can make that each move something: a fetched packet counts twice its
bytes and once for its retirement, a byte may turn a lock, and a kernel empties one more buffer than
it fills. -/
def workLeft (p : Plant) : Nat :=
  let published := match p.fabric.consumer.published p.memory with
    | .ok word _ => word.toNat
    | .error _ _ => 0
  let full := (p.fabric.tiles.buffers.items.toList.filter (·.full)).length
  (published - p.fabric.nextFetch.toNat) * (2 * UInt64.size + 2) + 2 * p.fabric.bytesLeft +
    p.fabric.inFlight.length + full + 1

end Plant

end FabricQueue
