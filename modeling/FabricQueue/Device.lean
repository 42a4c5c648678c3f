import FabricQueue.Config
import FabricQueue.Machine

set_option autoImplicit false

namespace FabricQueue

-- What consumes the queue of a device.
inductive Backend where
  | hardware
  | software
  deriving DecidableEq, Repr

def Backend.text : Backend → String
  | .hardware => "Hardware"
  | .software => "Software (fabric model)"

inductive Selection where
  | auto
  | hardware
  | software
  deriving DecidableEq, Repr

structure Device where
  config : Config
  backend : Backend
  queue : Nat
  staging : Region
  -- Number of the fabric, if there is one.
  fabric : Option Nat
  deriving DecidableEq, Repr

namespace Device

def openHardware (c : Config) : Operation Device := do
  let region ← Machine.mapWindow c.memDevice c.queueBase c.queueRegionSize
  let staging ← Machine.mapWindow c.memDevice c.stagingBase c.stagingSize.toNat
  let queue ← Machine.createQueue region c.queueCapacity.toNat c.queueKind
  return { config := c, backend := .hardware, queue, staging, fabric := none }

def openSoftware (c : Config) : Operation Device := do
  let region ← Machine.allocate c.queueBase c.queueRegionSize
  let staging ← Machine.allocate c.stagingBase c.stagingSize.toNat
  let queue ← Machine.createQueue region c.queueCapacity.toNat c.queueKind
  let fabric ← Machine.spawnFabric region ⟨[staging]⟩ {}
  return { config := c, backend := .software, queue, staging, fabric := some fabric }

/-- Open what a configuration describes. Without a wish for either backend the board is tried first,
and any error of it leads to the fabric. -/
def ofConfig (c : Config) (selection : Selection) : Operation Device := do
  liftError (c.validate.mapError Error.invalidConfig)
  match selection with
  | .hardware => openHardware c
  | .software => openSoftware c
  | .auto => fun m =>
    match openHardware c m with
    | .error (.error _) m => openSoftware c m
    | result => result

def handle (d : Device) : QueueHandle Machine where
  use := fun use => Machine.call ((Machine.queueHandle d.queue).use use)

def stagingAddress (d : Device) (offset : Nat) : Except Failure UInt64 :=
  d.staging.physAddr offset

/-- Use the tiles, if a fabric stands behind the queue. -/
def onTiles {α : Type} (d : Device) (use : TileArray → Except Failure (α × TileArray)) :
    Operation (Option α) :=
  match d.fabric with
  | some number => Machine.call (Machine.onTiles number use)
  | none => return none

/-- Enqueue without a deadline. -/
def submit (d : Device) (command : Command) (seen : Observation Machine) : Operation PacketRef :=
  d.handle.enqueue command .indefinite seen

def dispatch (d : Device) (index : UInt64) : Operation Unit :=
  d.handle.dispatch index

def dispatchAndWait (d : Device) (index : UInt64) (packet : PacketRef) (policy : WaitPolicy)
    (seen : Observation Machine) : Operation Unit := do
  d.dispatch index
  d.handle.dispatchAndWait index packet policy seen

/-- Submit commands, dispatch them at once and wait for the last. -/
def runBatch (d : Device) (commands : List Command) (policy : WaitPolicy)
    (seen : Observation Machine) : Operation (List PacketRef) := do
  let packets ← d.handle.enqueueAll .indefinite seen commands
  if let some last := packets.getLast? then
    d.dispatchAndWait last.index last policy seen
  return packets

end Device

end FabricQueue
