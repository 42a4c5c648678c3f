import FabricQueue.Dispatch
import FabricQueue.Fabric.Pass

set_option autoImplicit false

/-!
# Machines

One machine holds the memory, the files that can be mapped, the queues and the fabrics. Queues and
fabrics are known by numbers. `settle` lets the fabrics work until none of them moves anything.
-/

namespace FabricQueue

-- A file that can be mapped, and where its bytes stand in the memory.
structure MappableFile where
  path : String
  origin : Nat
  length : Nat
  deriving DecidableEq, Repr

structure Machine where
  memory : Memory := ByteStore.empty
  files : List MappableFile := []
  queues : Array Queue := #[]
  fabrics : List (Nat × Fabric) := []
  nextQueueId : UInt64 := 0
  nextFabric : Nat := 0
  -- What the allocator answers to each request, by its number and its size.
  allocator : Nat → Nat → Bool := fun _ _ => true
  requests : Nat := 0
  -- The passes that the fabrics make before each call of the host, by the number of the call.
  between : Nat → List Order := fun _ => []
  calls : Nat := 0

abbrev Operation := EStateM Failure Machine

namespace Machine

def pageSize : Nat := 4096

/-- The end of the addresses a process can map. -/
def mapLimit : Nat := 1 <<< 47

/-- The end of the offsets a file can have. -/
def fileLimit : Nat := 1 <<< 63

def onMemory {α : Type} (use : Access α) : Operation α := fun m =>
  match use m.memory with
  | .ok a memory => .ok a { m with memory }
  | .error failure memory => .error failure { m with memory }

def allocate (base : UInt64) (size : Nat) : Operation Region := fun m =>
  onMemory (Region.allocate (m.allocator m.requests size) base size)
    { m with requests := m.requests + 1 }

/-- Add a file of zeros. The store holds whole pages of it. -/
def addFile (path : String) (length : Nat) : Operation Unit := fun m =>
  let pages := (length + pageSize - 1) / pageSize
  .ok () { m with
    memory := m.memory.extend (pages * pageSize)
    files := ⟨path, m.memory.size, length⟩ :: m.files.filter fun f => f.path ≠ path }

def file? (m : Machine) (path : String) : Option MappableFile :=
  m.files.find? fun f => f.path == path

def fileRegion? (m : Machine) (path : String) : Option Region :=
  (m.file? path).map fun f => ⟨f.origin, 0, f.length, true⟩

/-- Map a window of a file. Byte `k` of the window is byte `base + k` of the file. -/
def mapWindow (path : String) (base : UInt64) (size : Nat) : Operation Region := fun m =>
  let refuse (cause : MapFault) : EStateM.Result Failure Machine Region :=
    .error (.error (.mapFailed path cause)) m
  let lead := base.toNat % pageSize
  if size = 0 then refuse .emptyMapping
  else
    match m.file? path with
    | none => refuse .notFound
    | some file =>
      if UInt64.size ≤ lead + size then .error (.overflow .addition) m
      else if mapLimit < lead + size then refuse .tooLong
      else if fileLimit ≤ base.toNat + size then refuse .beyondFile
      else .ok ⟨file.origin + base.toNat, base, size, true⟩ m

/-- Create a queue at the start of a region. Only a queue that can stand there uses up a number. -/
def createQueue (r : Region) (capacity : Nat) (kind : QueueKind) : Operation Nat := do
  liftError (Queue.check capacity r)
  let id := (← get).nextQueueId
  modify fun m => { m with nextQueueId := id + 1 }
  let queue ← onMemory (Queue.create id capacity kind r)
  modifyGet fun m => (m.queues.size, { m with queues := m.queues.push queue })

def queueHandle (number : Nat) : QueueHandle Machine where
  use := fun use m =>
    match m.queues[number]? with
    | none => .error (.error (.invalidState (.noted "no such queue"))) m
    | some queue =>
      match use queue m.memory with
      | .ok (a, queue) memory =>
        .ok a { m with memory, queues := m.queues.setIfInBounds number queue }
      | .error failure memory => .error failure { m with memory }

def spawnFabric (r : Region) (hosts : HostMap) (tiles : TileArray) : Operation Nat := do
  let fabric ← onMemory (Fabric.spawn r hosts tiles)
  modifyGet fun m => (m.nextFabric, { m with
    fabrics := m.fabrics ++ [(m.nextFabric, fabric)]
    nextFabric := m.nextFabric + 1 })

def stopFabric (number : Nat) (m : Machine) : Machine :=
  { m with fabrics := m.fabrics.filter fun entry => entry.1 ≠ number }

def fabric? (m : Machine) (number : Nat) : Option Fabric :=
  m.fabrics.lookup number

/-- Use the tiles of a fabric between two passes; nothing without the fabric. -/
def onTiles {α : Type} (number : Nat) (use : TileArray → Except Failure (α × TileArray)) :
    Operation (Option α) := fun m =>
  match m.fabric? number with
  | none => .ok none m
  | some fabric =>
    match use fabric.tiles with
    | .error failure => .error failure m
    | .ok (a, tiles) =>
      .ok (some a) { m with fabrics := m.fabrics.map fun entry =>
        if entry.1 = number then (entry.1, { entry.2 with tiles }) else entry }

/-- One pass of every fabric. Tells whether anything moved. -/
def pollFabrics (order : Order) :
    List (Nat × Fabric) → Memory → Bool × List (Nat × Fabric) × Memory
  | [], memory => (false, [], memory)
  | (number, fabric) :: rest, memory =>
    let (moved, ⟨fabric, memory⟩) := Plant.poll order ⟨fabric, memory⟩
    let (others, rest, memory) := pollFabrics order rest memory
    (moved || others, (number, fabric) :: rest, memory)

/-- One pass of every fabric over the memory of the machine. -/
def pass (order : Order) (m : Machine) : Bool × Machine :=
  let after := pollFabrics order m.fabrics m.memory
  (after.1, { m with fabrics := after.2.1, memory := after.2.2 })

/-- The passes before the next call of the host. -/
def attend (m : Machine) : Machine :=
  let after := (m.between m.calls).foldl (fun m order => (m.pass order).2) m
  { after with calls := m.calls + 1 }

/-- A call of the host on a device that it shares with the fabrics. -/
def call {α : Type} (use : Operation α) : Operation α := fun m =>
  use m.attend

/-- Passes until one moves nothing, in at most `rounds` rounds. -/
def settleIn (order : Order) :
    (rounds : Nat) → List (Nat × Fabric) → Memory → List (Nat × Fabric) × Memory
  | 0, fabrics, memory => (fabrics, memory)
  | rounds + 1, fabrics, memory =>
    match pollFabrics order fabrics memory with
    | (true, fabrics, memory) => settleIn order rounds fabrics memory
    | (false, fabrics, memory) => (fabrics, memory)

/-- More rounds than the fabrics can work. Those beyond the work left are for fabrics whose
transfers publish packets themselves. -/
def rounds (m : Machine) : Nat :=
  m.fabrics.foldr (fun entry left => Plant.workLeft ⟨entry.2, m.memory⟩ + left) UInt64.size

/-- Let the fabrics work until they are at rest. -/
def settle (order : Order) (m : Machine) : Machine :=
  let (fabrics, memory) := settleIn order m.rounds m.fabrics m.memory
  { m with fabrics, memory }

/-- What a wait sees on a machine that serves its fabrics: they settle during the first pause, and
then only time passes. -/
def seen (order : Order) : Observation Machine := fun policy =>
  [{ evolve := fun _ m => m.settle order }, { elapsed := policy.timeout.getD 0 }]

end Machine

end FabricQueue
