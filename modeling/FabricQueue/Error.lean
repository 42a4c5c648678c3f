import FabricQueue.Packet.Command
import FabricQueue.Queue.Layout
import FabricQueue.Text.Numeral
import FabricQueue.Text.Quoted
import FabricQueue.Tile.Endpoint

set_option autoImplicit false

namespace FabricQueue

inductive AddressFault where
  | emptyRegion
  | badLayout
  | allocationFailed
  | outsideRegion (length base limit : Nat)
  | outsideHost (length : Nat)
  | misaligned (alignment : Nat)
  | queueBase
  | tooFewSlots (size capacity needed : Nat)
  | noted (reason : String)
  deriving DecidableEq, Repr

def AddressFault.message : AddressFault → String
  | emptyRegion => "zero-sized region"
  | badLayout => "bad layout: invalid parameters to Layout::from_size_align"
  | allocationFailed => "allocation failed"
  | outsideRegion length base limit =>
    toString length ++ " bytes not inside [" ++ Text.hex base ++ ", " ++ Text.hex limit ++ ")"
  | outsideHost length => toString length ++ " bytes outside host memory"
  | misaligned alignment => "not " ++ toString alignment ++ "-byte aligned"
  | queueBase => "queue base must be " ++ toString Layout.alignment ++ "-byte aligned"
  | tooFewSlots size capacity needed =>
    "region of " ++ Text.hex size ++ " bytes cannot hold " ++ toString capacity ++ " slots (" ++
      Text.hex needed ++ " bytes)"
  | noted reason => reason

inductive MapFault where
  | emptyMapping
  | notFound
  | beyondFile
  | tooLong
  | noted (reason : String)
  deriving DecidableEq, Repr

def MapFault.message : MapFault → String
  | emptyMapping => "zero-sized mapping"
  | notFound => "cannot open: No such file or directory (os error 2)"
  | beyondFile => "mmap failed: Value too large for defined data type (os error 75)"
  | tooLong => "mmap failed: Cannot allocate memory (os error 12)"
  | noted reason => reason

inductive ConfigFault where
  | notANumber (key value : String) (cause : Text.NumeralFault)
  | outOfRange (key : String) (value : Nat)
  | unsupportedCapacity (capacity : Nat)
  | misalignedQueue (base : Nat)
  | emptyStaging
  | noColumns
  | pastAddressSpace (name : String) (base size : Nat)
  | overlap (queueBase queueEnd stagingBase stagingEnd : Nat)
  | stagingTooSmall (needed size : Nat)
  | emptyBuffer (name : String)
  | duplicateBuffer (name : String)
  | unknownBuffer (name : String)
  | emptyRoute (endpoint : Endpoint)
  | noted (reason : String)
  deriving DecidableEq, Repr

def ConfigFault.message : ConfigFault → String
  | notANumber key value cause => key ++ "=" ++ Text.quoted value ++ ": " ++ cause.message
  | outOfRange key value => key ++ "=" ++ toString value ++ " out of range"
  | unsupportedCapacity capacity =>
    "queue capacity " ++ toString capacity ++ " is not a power of two in " ++
      toString Layout.minCapacity ++ "..=" ++ toString Layout.maxCapacity
  | misalignedQueue base =>
    "queue base " ++ Text.hex base ++ " is not " ++ toString Layout.alignment ++ "-byte aligned"
  | emptyStaging => "staging buffer size is 0"
  | noColumns => "fabric has no columns"
  | pastAddressSpace name base size =>
    name ++ " at " ++ Text.hex base ++ " with " ++ Text.hex size ++
      " bytes runs past the address space"
  | overlap queueBase queueEnd stagingBase stagingEnd =>
    "queue [" ++ Text.hex queueBase ++ ", " ++ Text.hex queueEnd ++ ") overlaps staging buffer [" ++
      Text.hex stagingBase ++ ", " ++ Text.hex stagingEnd ++ ")"
  | stagingTooSmall needed size =>
    "scenario needs " ++ Text.hex needed ++ " staging bytes, have " ++ Text.hex size
  | emptyBuffer name => "tile buffer " ++ Text.quoted name ++ " has no storage"
  | duplicateBuffer name => "tile buffer " ++ Text.quoted name ++ " declared twice"
  | unknownBuffer name => "no tile buffer named " ++ Text.quoted name
  | emptyRoute endpoint => "route " ++ endpoint.text ++ " has no buffers"
  | noted reason => reason

inductive StateFault where
  | notReserved (index writeIndex : UInt64)
  | alreadyDispatched (index : UInt64)
  | dispatchBeyond (index writeIndex : UInt64)
  | unsupportedSize (size : Nat)
  | regionTooShort (capacity size : Nat)
  | retireOutOfOrder (index readIndex : UInt64)
  | noRoute (endpoint : Endpoint)
  | noted (state : String)
  deriving DecidableEq, Repr

def StateFault.message : StateFault → String
  | notReserved index writeIndex =>
    "index " ++ toString index.toNat ++ " not reserved (write index " ++
      toString writeIndex.toNat ++ ")"
  | alreadyDispatched index => "packet " ++ toString index.toNat ++ " already dispatched"
  | dispatchBeyond index writeIndex =>
    "dispatch of " ++ toString index.toNat ++ " but only " ++ toString writeIndex.toNat ++
      " slots reserved"
  | unsupportedSize size => "queue header has unsupported size " ++ toString size
  | regionTooShort capacity size =>
    "queue header claims " ++ toString capacity ++ " slots, region is " ++ Text.hex size ++ " bytes"
  | retireOutOfOrder index readIndex =>
    "retire " ++ toString index.toNat ++ " while read index is " ++ toString readIndex.toNat
  | noRoute endpoint => "no route for " ++ endpoint.text
  | noted state => state

inductive Error where
  | invalidCapacity (capacity low high : Nat)
  | invalidAddress (address : UInt64) (cause : AddressFault)
  | mapFailed (path : String) (cause : MapFault)
  | io (reason : String)
  | outOfBounds (offset length limit : Nat)
  | slotInFlight (index readIndex : UInt64) (capacity : Nat)
  | decode (index : UInt64) (cause : DecodeError)
  | unwritten (index : UInt64) (cause : Error)
  | timeout (milliseconds : Nat)
  | cancelled
  | invalidConfig (cause : ConfigFault)
  | invalidState (cause : StateFault)
  deriving DecidableEq, Repr

def Error.message : Error → String
  | invalidCapacity capacity low high =>
    "Unsupported queue capacity " ++ toString capacity ++ " (need a power of two in " ++
      toString low ++ "..=" ++ toString high ++ ")"
  | invalidAddress address cause =>
    "Invalid address " ++ Text.hex address.toNat ++ ": " ++ cause.message
  | mapFailed path cause => "Failed to map " ++ path ++ ": " ++ cause.message
  | io reason => "I/O error: " ++ reason
  | outOfBounds offset length limit =>
    "Out of bounds access: offset=" ++ Text.hex offset ++ ", len=" ++ toString length ++
      ", limit=" ++ Text.hex limit
  | slotInFlight index readIndex capacity =>
    "Slot for write index " ++ toString index.toNat ++ " still in flight (read index " ++
      toString readIndex.toNat ++ ", capacity " ++ toString capacity ++ ")"
  | decode index cause => "Packet " ++ toString index.toNat ++ " does not decode: " ++ cause.message
  | unwritten index cause =>
    "Packet " ++ toString index.toNat ++ " reserved but not written: " ++ cause.message
  | timeout milliseconds => "Operation timeout after " ++ toString milliseconds ++ "ms"
  | cancelled => "Wait cancelled"
  | invalidConfig cause => "Invalid configuration: " ++ cause.message
  | invalidState cause => "Invalid state: " ++ cause.message

inductive Failure where
  | error (cause : Error)
  | overflow (cause : Overflow)
  | stillWaiting
  deriving DecidableEq, Repr

/-- Add to a 64-bit word; a sum past the last word is an overflow. -/
def addWord (a : UInt64) (n : Nat) : Except Failure UInt64 :=
  if a.toNat + n < UInt64.size then .ok (UInt64.ofNat (a.toNat + n))
  else .error (.overflow .addition)

/-- A result that does not depend on the state, as an operation on it. -/
def lift {σ α : Type} (x : Except Failure α) : EStateM Failure σ α := fun s =>
  match x with
  | .ok a => .ok a s
  | .error failure => .error failure s

/-- A refusal or a result, as an operation that may also fail otherwise. -/
def liftError {σ α : Type} (x : Except Error α) : EStateM Failure σ α := fun s =>
  match x with
  | .ok a => .ok a s
  | .error e => .error (.error e) s

end FabricQueue
