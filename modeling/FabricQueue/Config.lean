import FabricQueue.Error
import FabricQueue.Queue.Kind
import FabricQueue.Text.Blank

set_option autoImplicit false

namespace FabricQueue

structure Config where
  queueBase : UInt64 := 0x20100000000
  queueCapacity : UInt32 := 64
  queueKind : QueueKind := .single
  stagingBase : UInt64 := 0x20100010000
  stagingSize : UInt64 := 0x8000
  memDevice : String := "/dev/mem"
  numColumns : UInt8 := 50
  deriving DecidableEq, Repr

namespace Config

def queueRegionSize (c : Config) : Nat :=
  Layout.regionSize c.queueCapacity.toNat

/-- End of a region, which must be an address itself. -/
def regionEnd (name : String) (base size : Nat) : Except ConfigFault Nat :=
  if base + size < UInt64.size then .ok (base + size)
  else .error (.pastAddressSpace name base size)

def validate (c : Config) : Except ConfigFault Unit := do
  let queueBase := c.queueBase.toNat
  let stagingBase := c.stagingBase.toNat
  if !Layout.supports c.queueCapacity.toNat then
    throw (.unsupportedCapacity c.queueCapacity.toNat)
  if queueBase % Layout.alignment ≠ 0 then
    throw (.misalignedQueue queueBase)
  if c.stagingSize = 0 then
    throw .emptyStaging
  if c.numColumns = 0 then
    throw .noColumns
  let queueEnd ← regionEnd "queue" queueBase c.queueRegionSize
  let stagingEnd ← regionEnd "staging buffer" stagingBase c.stagingSize.toNat
  if queueBase < stagingEnd ∧ stagingBase < queueEnd then
    throw (.overlap queueBase queueEnd stagingBase stagingEnd)

/-- Read the value of a variable as a number; blanks around it do not count. -/
def readNumber (key value : String) : Except ConfigFault UInt64 :=
  match Text.readWord (Text.trim value.toList) with
  | .ok word => .ok word
  | .error cause => .error (.notANumber key value cause)

def readNarrow (bound : Nat) (key value : String) : Except ConfigFault Nat := do
  let word ← readNumber key value
  if word.toNat < bound then return word.toNat
  else throw (.outOfRange key word.toNat)

/-- Use the value of a variable, if it has one. -/
def override (lookup : String → Option String) (key : String) (c : Config)
    (use : String → Except ConfigFault Config) : Except ConfigFault Config :=
  match lookup key with
  | some value => use value
  | none => .ok c

/-- The defaults with each variable's value in place of its field. -/
def ofVariables (lookup : String → Option String) : Except ConfigFault Config := do
  let c : Config := {}
  let c ← override lookup "AIR_QUEUE_BASE" c fun v => do
    return { c with queueBase := ← readNumber "AIR_QUEUE_BASE" v }
  let c ← override lookup "AIR_QUEUE_SIZE" c fun v => do
    return { c with queueCapacity := UInt32.ofNat (← readNarrow UInt32.size "AIR_QUEUE_SIZE" v) }
  let c ← override lookup "AIR_STAGING_BASE" c fun v => do
    return { c with stagingBase := ← readNumber "AIR_STAGING_BASE" v }
  let c ← override lookup "AIR_STAGING_SIZE" c fun v => do
    return { c with stagingSize := ← readNumber "AIR_STAGING_SIZE" v }
  let c ← override lookup "AIR_MEM_DEVICE" c fun v =>
    return { c with memDevice := v }
  let c ← override lookup "AIR_NUM_COLUMNS" c fun v => do
    return { c with numColumns := UInt8.ofNat (← readNarrow UInt8.size "AIR_NUM_COLUMNS" v) }
  c.validate
  return c

end Config

end FabricQueue
