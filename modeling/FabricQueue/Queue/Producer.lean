import FabricQueue.Packet.Command
import FabricQueue.Queue.Slot

set_option autoImplicit false

namespace FabricQueue

structure Queue where
  region : Region
  capacity : Nat
  kind : QueueKind
  id : UInt64
  -- Next index to publish.
  tail : UInt64 := 0
  -- For each slot the index written into it and not yet published.
  staged : Array (Option UInt64)
  deriving DecidableEq, Repr

structure PacketRef where
  index : UInt64
  slot : Nat
  deriving DecidableEq, Repr

namespace Queue

/-- Features word of a queue for agent dispatch. -/
def features : Nat := 2

/-- The content of a slot that no packet uses. -/
def idle : Record :=
  { header := Header.pending, signal := signalDone }

/-- A queue of this capacity can stand at the start of this region. -/
def check (capacity : Nat) (r : Region) : Except Error Unit :=
  if !Layout.supports capacity then
    .error (.invalidCapacity capacity Layout.minCapacity Layout.maxCapacity)
  else if r.base.toNat % Layout.alignment ≠ 0 then
    .error (.invalidAddress r.base .queueBase)
  else if r.size < Layout.regionSize capacity then
    .error (.invalidAddress r.base (.tooFewSlots r.size capacity (Layout.regionSize capacity)))
  else .ok ()

def clearSlots (r : Region) : (slot count : Nat) → Access Unit
  | _, 0 => pure ()
  | slot, count + 1 => do
    r.writeRecord slot idle
    clearSlots r (slot + 1) count

/-- Lay out a fresh queue. The slots come first, so that a consumer never finds a header over
packets of an earlier queue, and the doorbell comes last. -/
def create (id : UInt64) (capacity : Nat) (kind : QueueKind) (r : Region) : Access Queue := do
  liftError (check capacity r)
  clearSlots r 0 capacity
  r.write64 Layout.typeAt (UInt64.ofNat (kind.code.toNat + features <<< 32))
  let slots ← lift (addWord r.base Layout.headerSize)
  r.write64 Layout.baseAddressAt slots
  r.write64 Layout.sizeAt (UInt64.ofNat capacity)
  r.write64 Layout.idAt id
  r.write64 Layout.readIndexAt 0
  r.write64 Layout.writeIndexAt 0
  r.write64 Layout.doorbellAt Layout.noDoorbell
  return { region := r, capacity, kind, id, staged := Array.replicate capacity none }

def slot (q : Queue) (index : UInt64) : Nat :=
  slotOf q.capacity index

def reserve (q : Queue) (count : UInt64) : Access UInt64 :=
  q.region.fetchAdd Layout.writeIndexAt count

def writeIndex (q : Queue) : Access UInt64 :=
  q.region.writeIndex

def readIndex (q : Queue) : Access UInt64 :=
  q.region.readIndex

def published (q : Queue) : Access UInt64 :=
  q.region.published

/-- The slot of the index is free of the packet that used it before. -/
def hasRoom (q : Queue) (index : UInt64) : Access Bool := do
  let readIndex ← q.readIndex
  let limit ← lift (addWord readIndex q.capacity)
  return index < limit

def stagedAt (q : Queue) (slot : Nat) : Option UInt64 :=
  q.staged.getD slot none

/-- Write a record into the slot of a reserved index. Whatever its header says, the consumer does
not see it before it is dispatched. -/
def writeRecord (q : Queue) (index : UInt64) (record : Record) : Access (PacketRef × Queue) := do
  let writeIndex ← q.writeIndex
  if writeIndex ≤ index then
    throw (.error (.invalidState (.notReserved index writeIndex)))
  let readIndex ← q.readIndex
  let limit ← lift (addWord readIndex q.capacity)
  if limit ≤ index then
    throw (.error (.slotInFlight index readIndex q.capacity))
  if index < q.tail then
    throw (.error (.invalidState (.alreadyDispatched index)))
  let slot := q.slot index
  q.region.writeRecord slot { record with header := Header.pending }
  return (⟨index, slot⟩, { q with staged := q.staged.setIfInBounds slot (some index) })

def writePacket (q : Queue) (index : UInt64) (command : Command) : Access (PacketRef × Queue) :=
  q.writeRecord index command.encode

def packet (q : Queue) (index : UInt64) : Access Record :=
  q.region.readRecord (q.slot index)

/-- Publish up to `count` packets from the tail on, as long as they are written. -/
def publishNext : Nat → Queue → Access Queue
  | 0, q => pure q
  | count + 1, q => do
    let slot := q.slot q.tail
    if q.stagedAt slot = some q.tail then
      q.region.setHeader slot Header.dispatch
      publishNext count
        { q with staged := q.staged.setIfInBounds slot none, tail := q.tail + 1 }
    else return q

/-- Publish every written packet up to and with `index`, and ring the doorbell if there was one.
Gives back how many packets are published by then. -/
def publish (q : Queue) (index : UInt64) : Access (UInt64 × Queue) := do
  let writeIndex ← q.writeIndex
  if writeIndex ≤ index then
    throw (.error (.invalidState (.dispatchBeyond index writeIndex)))
  let p ← publishNext (index.toNat + 1 - q.tail.toNat) q
  if p.tail ≠ q.tail then
    q.region.write64 Layout.doorbellAt (p.tail - 1)
  return (p.tail, p)

/-- The consumer is done with the packet of an index. -/
def isComplete (q : Queue) (index : UInt64) : Access Bool := do
  let readIndex ← q.readIndex
  if index < readIndex then return true
  let published ← q.published
  if published ≤ index then return false
  let signal ← q.region.signalOf (q.slot index)
  return signal == signalDone

end Queue

end FabricQueue
