import FabricQueue.Queue.Kind
import FabricQueue.Region

set_option autoImplicit false

namespace FabricQueue

namespace Region

def readIndex (r : Region) : Access UInt64 :=
  r.read64 Layout.readIndexAt

def writeIndex (r : Region) : Access UInt64 :=
  r.read64 Layout.writeIndexAt

/-- Packets published so far: one more than the doorbell, which starts one below zero. -/
def published (r : Region) : Access UInt64 :=
  (· + 1) <$> r.read64 Layout.doorbellAt

end Region

structure QueueHeader where
  kind : UInt32
  features : UInt32
  baseAddress : UInt64
  doorbell : UInt64
  size : UInt32
  id : UInt64
  readIndex : UInt64
  writeIndex : UInt64
  deriving DecidableEq, Repr

namespace QueueHeader

def read (r : Region) : Access QueueHeader := do
  let first ← r.read64 Layout.typeAt
  let baseAddress ← r.read64 Layout.baseAddressAt
  let doorbell ← r.read64 Layout.doorbellAt
  let size ← r.read32 Layout.sizeAt
  let id ← r.read64 Layout.idAt
  let readIndex ← r.readIndex
  let writeIndex ← r.writeIndex
  return {
    kind := UInt32.ofNat first.toNat
    features := UInt32.ofNat (first.toNat >>> 32)
    baseAddress, doorbell, size, id, readIndex, writeIndex }

/-- Packets reserved and not retired. -/
def inFlight (h : QueueHeader) : Nat :=
  h.writeIndex.toNat - h.readIndex.toNat

def published (h : QueueHeader) : UInt64 :=
  h.doorbell + 1

end QueueHeader

end FabricQueue
