set_option autoImplicit false

namespace FabricQueue

/-- The `width` low bytes of `n`, least significant first. -/
def bytesOf : Nat → Nat → List UInt8
  | 0, _ => []
  | width + 1, n => UInt8.ofNat n :: bytesOf width (n / 256)

/-- The number with the given bytes, least significant first. -/
def ofBytes : List UInt8 → Nat
  | [] => 0
  | b :: rest => b.toNat + 256 * ofBytes rest

structure ByteStore where
  bytes : ByteArray

namespace ByteStore

def empty : ByteStore :=
  ⟨ByteArray.empty⟩

def size (s : ByteStore) : Nat :=
  s.bytes.size

def get (s : ByteStore) (i : Nat) : UInt8 :=
  if h : i < s.bytes.size then s.bytes[i] else 0

@[irreducible]
def set (s : ByteStore) (i : Nat) (b : UInt8) : ByteStore :=
  if h : i < s.bytes.size then ⟨s.bytes.set i b h⟩ else s

def read (s : ByteStore) (start count : Nat) : List UInt8 :=
  (List.range count).map fun i => s.get (start + i)

def write (s : ByteStore) (start : Nat) : List UInt8 → ByteStore
  | [] => s
  | b :: rest => (s.set start b).write (start + 1) rest

def extend (s : ByteStore) : Nat → ByteStore
  | 0 => s
  | count + 1 => extend ⟨s.bytes.push 0⟩ count

def zeros (count : Nat) : ByteStore :=
  empty.extend count

def read32 (s : ByteStore) (start : Nat) : UInt32 :=
  UInt32.ofNat (ofBytes (s.read start 4))

def write32 (s : ByteStore) (start : Nat) (w : UInt32) : ByteStore :=
  s.write start (bytesOf 4 w.toNat)

def read64 (s : ByteStore) (start : Nat) : UInt64 :=
  UInt64.ofNat (ofBytes (s.read start 8))

def write64 (s : ByteStore) (start : Nat) (w : UInt64) : ByteStore :=
  s.write start (bytesOf 8 w.toNat)

end ByteStore

def wordBytes (words : List UInt32) : List UInt8 :=
  words.flatMap fun w => bytesOf 4 w.toNat

/-- The 32-bit words of consecutive bytes; up to three bytes behind the last word are dropped. -/
def bytesWords : List UInt8 → List UInt32
  | a :: b :: c :: d :: rest => UInt32.ofNat (ofBytes [a, b, c, d]) :: bytesWords rest
  | _ => []

end FabricQueue
