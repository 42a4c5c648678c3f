set_option autoImplicit false

/-!
# Layout of a queue region

A header of 64 bytes, then slots of 64 bytes each. The header holds, from its first byte,

* at 0x00 the queue type and at 0x04 the features (32 bits each),
* at 0x08 the address of slot 0,
* at 0x10 the doorbell, the index of the last published packet,
* at 0x18 the number of slots (32 bits),
* at 0x20 the identifier,
* at 0x28 the read index and at 0x30 the write index.
-/

namespace FabricQueue.Layout

def packetSize : Nat := 64

def headerSize : Nat := 64

/-- A queue region starts at a multiple of this. -/
def alignment : Nat := 64

def minCapacity : Nat := 2

def maxCapacity : Nat := 65536

def typeAt : Nat := 0x00

def baseAddressAt : Nat := 0x08

def doorbellAt : Nat := 0x10

def sizeAt : Nat := 0x18

def idAt : Nat := 0x20

def readIndexAt : Nat := 0x28

def writeIndexAt : Nat := 0x30

/-- Doorbell of a queue on which nothing was published yet. -/
def noDoorbell : UInt64 := UInt64.ofNat (UInt64.size - 1)

def slotOffset (slot : Nat) : Nat :=
  headerSize + slot * packetSize

def regionSize (capacity : Nat) : Nat :=
  slotOffset capacity

/-- Capacities are powers of two between the two limits. -/
def supports (capacity : Nat) : Bool :=
  minCapacity ≤ capacity && capacity ≤ maxCapacity && 1 <<< capacity.log2 == capacity

end FabricQueue.Layout
