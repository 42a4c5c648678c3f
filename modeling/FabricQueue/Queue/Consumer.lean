import FabricQueue.Queue.Slot

set_option autoImplicit false

namespace FabricQueue

structure Consumer where
  region : Region
  capacity : Nat
  deriving DecidableEq, Repr

namespace Consumer

/-- Take up the queue at the start of a region. -/
def attach (r : Region) : Access Consumer := do
  let header ← QueueHeader.read r
  let capacity := header.size.toNat
  if !Layout.supports capacity then
    throw (.error (.invalidState (.unsupportedSize capacity)))
  if r.size < Layout.regionSize capacity then
    throw (.error (.invalidState (.regionTooShort capacity r.size)))
  return ⟨r, capacity⟩

def slot (c : Consumer) (index : UInt64) : Nat :=
  slotOf c.capacity index

def published (c : Consumer) : Access UInt64 :=
  c.region.published

def readIndex (c : Consumer) : Access UInt64 :=
  c.region.readIndex

/-- The packet in the slot of an index, if its header is active. -/
def fetch (c : Consumer) (index : UInt64) : Access (Option Record) := do
  let word ← c.region.headerWordOf (c.slot index)
  if Header.isActive (headerOf word) then
    let record ← c.region.readRecord (c.slot index)
    return some { record with header := headerOf word }
  else return none

/-- Mark the packet at the read index done and give its slot back. The index moves last. -/
def retire (c : Consumer) (index : UInt64) : Access Unit := do
  let readIndex ← c.readIndex
  if readIndex ≠ index then
    throw (.error (.invalidState (.retireOutOfOrder index readIndex)))
  c.region.setHeader (c.slot index) Header.pending
  c.region.setSignal (c.slot index) signalDone
  let next ← lift (addWord index 1)
  c.region.write64 Layout.readIndexAt next

end Consumer

end FabricQueue
