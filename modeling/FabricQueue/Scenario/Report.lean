import FabricQueue.Device

set_option autoImplicit false

namespace FabricQueue

structure Check where
  location : String
  index : Nat
  expected : UInt32
  actual : UInt32
  deriving DecidableEq, Repr

namespace Check

def isMatch (c : Check) : Bool :=
  c.expected == c.actual

def text (c : Check) : String :=
  c.location ++ "[" ++ toString c.index ++ "]: expected " ++ Text.hexUpper 8 c.expected.toNat ++
    ", got " ++ Text.hexUpper 8 c.actual.toNat

/-- Compare consecutive words with what is expected of each. -/
def compare (location : String) (expected : Nat → UInt32) (actual : List UInt32) : List Check :=
  actual.zipIdx.map fun entry => ⟨location, entry.2, expected entry.2, entry.1⟩

end Check

structure Report where
  name : String
  checks : List Check
  deriving DecidableEq, Repr

namespace Report

def mismatches (r : Report) : List Check :=
  r.checks.filter fun c => !c.isMatch

def passed (r : Report) : Bool :=
  r.mismatches.isEmpty

def text (r : Report) : String :=
  if r.passed then r.name ++ ": PASS (" ++ toString r.checks.length ++ " words)"
  else r.name ++ ": fail " ++ toString r.mismatches.length ++ "/" ++ toString r.checks.length

end Report

namespace Device

/-- The staging buffer has room for a scenario. -/
def ensureStaging (d : Device) (bytes : Nat) : Operation Unit :=
  if d.staging.size < bytes then
    throw (.error (.invalidConfig (.stagingTooSmall bytes d.staging.size)))
  else return ()

def runCommand (d : Device) (command : Command) (policy : WaitPolicy) (seen : Observation Machine) :
    Operation Unit := do
  let packet ← d.submit command seen
  d.dispatchAndWait packet.index packet policy seen

def writeStaging (d : Device) (word : Nat) (words : List UInt32) : Operation Unit :=
  Machine.call (Machine.onMemory (d.staging.writeWords (4 * word) words))

def readStaging (d : Device) (word count : Nat) : Operation (List UInt32) :=
  Machine.call (Machine.onMemory (d.staging.readWords (4 * word) count))

/-- Put a tile array in the place of the one there is. -/
def configureTiles (d : Device) (tiles : Except Failure TileArray) : Operation Unit := do
  let _ ← d.onTiles fun _ => tiles.map fun t => ((), t)

/-- Compare words of the tiles; no comparison without a fabric. -/
def checkTiles (d : Device) (checks : TileArray → Except Failure (List Check)) :
    Operation (List Check) := do
  let found ← d.onTiles fun t => do return (← checks t, t)
  return found.getD []

end Device

namespace TileArray

def addBuffers (words : Nat) (names : List String) (t : TileArray) : Except ConfigFault TileArray :=
  names.foldlM (fun t name => t.addBuffer name words) t

/-- Set the words of a buffer from its first on. -/
def writeWords (name : String) (words : List UInt32) (t : TileArray) : Except Failure TileArray :=
  words.zipIdx.foldlM (fun t entry => t.writeBuffer name entry.2 entry.1) t

end TileArray

end FabricQueue
