import FabricQueue.Bytes

set_option autoImplicit false

namespace FabricQueue

structure TileBuffer where
  name : String
  store : ByteStore
  full : Bool := false
  -- Next byte to fill or to drain.
  cursor : Nat := 0

namespace TileBuffer

def zeroed (name : String) (words : Nat) : TileBuffer :=
  { name, store := ByteStore.zeros (4 * words) }

def byteLength (b : TileBuffer) : Nat :=
  b.store.size

def wordCount (b : TileBuffer) : Nat :=
  b.byteLength / 4

def word (b : TileBuffer) (index : Nat) : UInt32 :=
  b.store.read32 (4 * index)

def words (b : TileBuffer) : List UInt32 :=
  (List.range b.wordCount).map b.word

def setWord (b : TileBuffer) (index : Nat) (value : UInt32) : TileBuffer :=
  { b with store := b.store.write32 (4 * index) value }

/-- Overwrite as many leading words as there are on both sides. -/
def load (b : TileBuffer) (words : List UInt32) : TileBuffer :=
  { b with store := b.store.write 0 (wordBytes (words.take b.wordCount)) }

def setFull (b : TileBuffer) (full : Bool) : TileBuffer :=
  { b with full, cursor := 0 }

def room (b : TileBuffer) : Nat :=
  b.byteLength - b.cursor

def ends (b : TileBuffer) (count : Nat) : Bool :=
  b.cursor + count == b.byteLength

/-- Move the cursor; at the end it goes back to the start and the lock turns to `full`. -/
def advance (b : TileBuffer) (count : Nat) (full : Bool) : TileBuffer :=
  if b.ends count then b.setFull full else { b with cursor := b.cursor + count }

/-- Take in bytes, no more than there is room for. -/
def fill (b : TileBuffer) (bytes : List UInt8) : TileBuffer :=
  { b with store := b.store.write b.cursor bytes }.advance bytes.length true

def front (b : TileBuffer) (count : Nat) : List UInt8 :=
  b.store.read b.cursor count

def drain (b : TileBuffer) (count : Nat) : TileBuffer :=
  b.advance count false

end TileBuffer

-- Buffers in the order they were declared, with distinct names.
structure TileBuffers where
  items : Array TileBuffer := #[]

namespace TileBuffers

def size (s : TileBuffers) : Nat :=
  s.items.size

def position? (s : TileBuffers) (name : String) : Option Nat :=
  s.items.findIdx? fun b => b.name == name

def find? (s : TileBuffers) (name : String) : Option TileBuffer :=
  (s.position? name).bind fun i => s.items[i]?

def modify (s : TileBuffers) (position : Nat) (change : TileBuffer → TileBuffer) : TileBuffers :=
  ⟨s.items.modify position change⟩

def modifyNamed (s : TileBuffers) (name : String) (change : TileBuffer → TileBuffer) :
    TileBuffers :=
  match s.position? name with
  | some i => s.modify i change
  | none => s

/-- Lock of a buffer; a name without a buffer counts as empty. -/
def isFull (s : TileBuffers) (name : String) : Bool :=
  (s.find? name).any (·.full)

end TileBuffers

end FabricQueue
