import FabricQueue.Bytes

set_option autoImplicit false

namespace FabricQueue

namespace Header

/-- A header the consumer skips. -/
def pending : UInt16 := 1

/-- Low byte of a header the consumer acts on. -/
def agentDispatch : UInt16 := 4

/-- Agent dispatch with system scope for the acquire and the release fence. -/
def dispatch : UInt16 := UInt16.ofNat (agentDispatch.toNat + 2 <<< 9 + 2 <<< 11)

def kind (header : UInt16) : UInt16 :=
  UInt16.ofNat (header.toNat % 256)

def isActive (header : UInt16) : Bool :=
  kind header == agentDispatch

end Header

/-- Value of a completion signal while its packet is not done. -/
def signalPending : UInt64 := 1

/-- Value of the completion signal of a finished packet. -/
def signalDone : UInt64 := 0

structure Record where
  header : UInt16 := 0
  kind : UInt16 := 0
  reserved0 : UInt32 := 0
  returnAddress : UInt64 := 0
  arg0 : UInt64 := 0
  arg1 : UInt64 := 0
  arg2 : UInt64 := 0
  arg3 : UInt64 := 0
  reserved1 : UInt64 := 0
  signal : UInt64 := 0
  deriving DecidableEq, Repr

def packHeader (header kind : UInt16) (reserved0 : UInt32) : UInt64 :=
  UInt64.ofNat (header.toNat + kind.toNat <<< 16 + reserved0.toNat <<< 32)

def headerOf (word : UInt64) : UInt16 :=
  UInt16.ofNat word.toNat

def kindOf (word : UInt64) : UInt16 :=
  UInt16.ofNat (word.toNat >>> 16)

def reserved0Of (word : UInt64) : UInt32 :=
  UInt32.ofNat (word.toNat >>> 32)

def withHeader (word : UInt64) (header : UInt16) : UInt64 :=
  packHeader header (kindOf word) (reserved0Of word)

namespace Record

def headerWord (r : Record) : UInt64 :=
  packHeader r.header r.kind r.reserved0

def toWords (r : Record) : Vector UInt64 8 :=
  #v[r.headerWord, r.returnAddress, r.arg0, r.arg1, r.arg2, r.arg3, r.reserved1, r.signal]

def ofWords (w : Vector UInt64 8) : Record where
  header := headerOf w[0]
  kind := kindOf w[0]
  reserved0 := reserved0Of w[0]
  returnAddress := w[1]
  arg0 := w[2]
  arg1 := w[3]
  arg2 := w[4]
  arg3 := w[5]
  reserved1 := w[6]
  signal := w[7]

def toBytes (r : Record) : List UInt8 :=
  r.toWords.toList.flatMap fun w => bytesOf 8 w.toNat

/-- The record in the first 64 bytes; bytes that are missing count as zero. -/
def ofBytes (bytes : List UInt8) : Record :=
  ofWords (Vector.ofFn fun (i : Fin 8) =>
    UInt64.ofNat (FabricQueue.ofBytes ((bytes.drop (8 * i.val)).take 8)))

def isActive (r : Record) : Bool :=
  Header.isActive r.header

/-- The record as the consumer sees it once it is published. -/
def activated (r : Record) : Record :=
  { r with header := Header.dispatch }

end Record

end FabricQueue
