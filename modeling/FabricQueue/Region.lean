import FabricQueue.Bytes
import FabricQueue.Error

set_option autoImplicit false

/-!
# Regions of shared memory

One store holds the bytes of every region; a region is a window on it with a physical address. An
access is checked first for its bounds, then for its alignment, and a refused access changes
nothing. Windows of the same file overlap in the store, so each sees what the other writes.
-/

namespace FabricQueue

abbrev Memory := ByteStore

-- Operations on shared memory; what was written before a failure stays written.
abbrev Access := EStateM Failure Memory

structure Region where
  -- Position of byte 0 in the store.
  origin : Nat
  -- Physical address of byte 0.
  base : UInt64
  size : Nat
  -- A window of a file, not memory of its own.
  mapped : Bool
  deriving DecidableEq, Repr

namespace Region

/-- The largest size that memory of its own may have. -/
def layoutLimit : Nat := 1 <<< 63 - 4096

/-- Memory of its own, if the allocator grants it. -/
def allocate (granted : Bool) (base : UInt64) (size : Nat) : Access Region := do
  if size = 0 then
    throw (.error (.invalidAddress base .emptyRegion))
  if layoutLimit < size then
    throw (.error (.invalidAddress base .badLayout))
  if !granted then
    throw (.error (.invalidAddress base .allocationFailed))
  modifyGet fun m => (⟨m.size, base, size, false⟩, m.extend size)

/-- The range `[phys, phys + len)` lies inside the region. -/
def contains (r : Region) (phys : UInt64) (len : Nat) : Bool :=
  r.base.toNat ≤ phys.toNat && phys.toNat - r.base.toNat + len ≤ r.size

def physAddr (r : Region) (offset : Nat) : Except Failure UInt64 :=
  addWord r.base offset

/-- Offset of the range `[phys, phys + len)`. The refusal names the end of the region, which has to
be a 64-bit address for that. -/
def offsetOf (r : Region) (phys : UInt64) (len : Nat) : Except Failure Nat :=
  if r.contains phys len then .ok (phys.toNat - r.base.toNat)
  else if r.base.toNat + r.size < UInt64.size then
    .error (.error (.invalidAddress phys
      (.outsideRegion len r.base.toNat (r.base.toNat + r.size))))
  else .error (.overflow .addition)

/-- Remainders of addresses count from here: a window keeps its position in the file. -/
def phase (r : Region) : Nat :=
  if r.mapped then r.base.toNat else 0

/-- Position in the store of a checked access. -/
def locate (r : Region) (offset len alignment : Nat) : Except Failure Nat :=
  if r.size < offset + len then
    .error (.error (.outOfBounds offset len r.size))
  else if (r.phase + offset) % alignment ≠ 0 then
    match r.physAddr offset with
    | .ok address => .error (.error (.invalidAddress address (.misaligned alignment)))
    | .error failure => .error failure
  else .ok (r.origin + offset)

def access {α : Type} (r : Region) (offset len alignment : Nat) (use : Nat → Memory → α × Memory) :
    Access α := fun m =>
  match r.locate offset len alignment with
  | .error failure => .error failure m
  | .ok start =>
    match use start m with
    | (a, m) => .ok a m

def read32 (r : Region) (offset : Nat) : Access UInt32 :=
  r.access offset 4 4 fun start m => (m.read32 start, m)

def write32 (r : Region) (offset : Nat) (value : UInt32) : Access Unit :=
  r.access offset 4 4 fun start m => ((), m.write32 start value)

def read64 (r : Region) (offset : Nat) : Access UInt64 :=
  r.access offset 8 8 fun start m => (m.read64 start, m)

def write64 (r : Region) (offset : Nat) (value : UInt64) : Access Unit :=
  r.access offset 8 8 fun start m => ((), m.write64 start value)

/-- Add to a word, round the 64 bits, and give back what it was. -/
def fetchAdd (r : Region) (offset : Nat) (value : UInt64) : Access UInt64 :=
  r.access offset 8 8 fun start m => (m.read64 start, m.write64 start (m.read64 start + value))

def readBytes (r : Region) (offset len : Nat) : Access (List UInt8) :=
  r.access offset len 1 fun start m => (m.read start len, m)

def writeBytes (r : Region) (offset : Nat) (bytes : List UInt8) : Access Unit :=
  r.access offset bytes.length 1 fun start m => ((), m.write start bytes)

def readWords (r : Region) (offset count : Nat) : Access (List UInt32) :=
  bytesWords <$> r.readBytes offset (4 * count)

def writeWords (r : Region) (offset : Nat) (words : List UInt32) : Access Unit :=
  r.writeBytes offset (wordBytes words)

def fill (r : Region) (offset len : Nat) (value : UInt8) : Access Unit :=
  r.access offset len 1 fun start m => ((), m.write start (List.replicate len value))

end Region

end FabricQueue
