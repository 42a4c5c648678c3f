import FabricQueue.CommandLine.Run

set_option autoImplicit false

namespace FabricQueue.CommandLine

def variableNames : List String :=
  ["AIR_QUEUE_BASE", "AIR_QUEUE_SIZE", "AIR_STAGING_BASE", "AIR_STAGING_SIZE", "AIR_MEM_DEVICE",
    "AIR_NUM_COLUMNS"]

/-- The command may map the memory device. -/
def mapsDevice (arguments : List String) : Bool :=
  match parse arguments with
  | .ok .probe => true
  | .ok (.validate _ selection _) => selection != .software
  | _ => false

def contents (path : String) : IO (Option ByteArray) := do
  try
    return some (← IO.FS.readBinFile path)
  catch _ =>
    return none

/-- The allocator of this process grants what is below 4 GiB: the store holds every byte of it. -/
def process : Machine :=
  { allocator := fun _ size => decide (size < 1 <<< 32) }

def withFile (path : String) (bytes : ByteArray) : Machine :=
  let load : Operation Unit := do
    Machine.addFile path bytes.size
    if let some region := (← get).fileRegion? path then
      Machine.onMemory (region.writeBytes 0 bytes.toList)
  match load process with
  | .ok _ m => m
  | .error _ m => m

def fileBytes (path : String) (m : Machine) : ByteArray :=
  match m.fileRegion? path with
  | some region => ⟨(m.memory.read region.origin region.size).toArray⟩
  | none => ByteArray.empty

/-- Wait for something that never comes. -/
partial def waitForever : IO Unit := do
  IO.sleep 1000
  waitForever

def runProgram (arguments : List String) : IO UInt32 := do
  let values ← variableNames.mapM fun key => do return (key, ← IO.getEnv key)
  let lookup := fun key => (values.lookup key).join
  let defaults : Config := {}
  let path := (lookup "AIR_MEM_DEVICE").getD defaults.memDevice
  let device ← if mapsDevice arguments then contents path else pure none
  let machine := match device with
    | some bytes => withFile path bytes
    | none => process
  let (outcome, machine) := run arguments lookup (Machine.seen id) machine
  IO.print outcome.output
  IO.eprint outcome.ending.complaint
  if let some bytes := device then
    let changed := fileBytes path machine
    if changed != bytes then
      IO.FS.writeBinFile path changed
  match outcome.ending.code with
  | some code => return UInt32.ofNat code
  | none =>
    waitForever
    return 0

end FabricQueue.CommandLine

def main (arguments : List String) : IO UInt32 :=
  FabricQueue.CommandLine.runProgram arguments
