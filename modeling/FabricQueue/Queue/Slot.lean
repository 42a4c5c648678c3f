import FabricQueue.Packet.Record
import FabricQueue.Queue.Header

set_option autoImplicit false

namespace FabricQueue

namespace Region

def storeWords (r : Region) (offset : Nat) : List UInt64 → Access Unit
  | [] => pure ()
  | w :: rest => do
    r.write64 offset w
    r.storeWords (offset + 8) rest

def writeRecord (r : Region) (slot : Nat) (record : Record) : Access Unit := do
  let words := record.toWords.toList
  r.storeWords (Layout.slotOffset slot + 8) (words.drop 1)
  r.write64 (Layout.slotOffset slot) record.headerWord

def readRecord (r : Region) (slot : Nat) : Access Record := do
  let start := Layout.slotOffset slot
  let w0 ← r.read64 start
  let w1 ← r.read64 (start + 8)
  let w2 ← r.read64 (start + 16)
  let w3 ← r.read64 (start + 24)
  let w4 ← r.read64 (start + 32)
  let w5 ← r.read64 (start + 40)
  let w6 ← r.read64 (start + 48)
  let w7 ← r.read64 (start + 56)
  return Record.ofWords #v[w0, w1, w2, w3, w4, w5, w6, w7]

def headerWordOf (r : Region) (slot : Nat) : Access UInt64 :=
  r.read64 (Layout.slotOffset slot)

/-- Turn the header of a slot and keep the rest of its first word. -/
def setHeader (r : Region) (slot : Nat) (header : UInt16) : Access Unit := do
  let word ← r.headerWordOf slot
  r.write64 (Layout.slotOffset slot) (withHeader word header)

def signalOf (r : Region) (slot : Nat) : Access UInt64 :=
  r.read64 (Layout.slotOffset slot + 56)

def setSignal (r : Region) (slot : Nat) (signal : UInt64) : Access Unit :=
  r.write64 (Layout.slotOffset slot + 56) signal

end Region

def slotOf (capacity : Nat) (index : UInt64) : Nat :=
  index.toNat % capacity

end FabricQueue
