import FabricQueue.Scenario.Report

set_option autoImplicit false

namespace FabricQueue.ShimDma

def blockWords : Nat := 32

def blockBytes : Nat := 4 * blockWords

def stagingBytes : Nat := 6 * blockBytes

def buffers : List String :=
  ["buf72", "buf74", "buf82", "buf84"]

/-- The routes of a column between its near and its far buffer. -/
def routeColumn (column : UInt8) (near far : String) (t : TileArray) :
    Except ConfigFault TileArray := do
  let t ← t.route ⟨column, 1, .hostToDevice⟩ [near]
  let t ← t.route ⟨column, 0, .hostToDevice⟩ [far]
  let t ← t.route ⟨column, 1, .deviceToHost⟩ [far]
  t.route ⟨column, 0, .deviceToHost⟩ [near]

def tiles : Except ConfigFault TileArray := do
  let t ← TileArray.addBuffers blockWords buffers {}
  let t ← routeColumn 18 "buf72" "buf82" t
  routeColumn 11 "buf74" "buf84" t

/-- The same with fill words in the near buffers. -/
def filledTiles : Except Failure TileArray := do
  let t ← tiles.mapError fun fault => .error (.invalidConfig fault)
  let t ← t.writeWords "buf72" (List.replicate blockWords 0xdeadbeef)
  t.writeWords "buf74" (List.replicate blockWords 0xfeedf00d)

def multiples (scale : Nat) : List UInt32 :=
  (List.range blockWords).map fun i => UInt32.ofNat (i * scale)

def image : List UInt32 :=
  multiples 1 ++ multiples 2 ++ List.replicate blockWords 0x1001ba11 ++
    List.replicate blockWords 0x10051ade ++ List.replicate blockWords 0x2001ba11 ++
    List.replicate blockWords 0x20051ade

def herd : Herd where
  id := 0
  startColumn := 7
  columns := 2
  startRow := 0
  rows := 5

/-- Copy one block of the staging buffer at `base`. -/
def copy (base : UInt64) (column : UInt8) (direction : Direction) (channel : UInt8) (block : Nat) :
    Except Failure Command := do
  let address ← addWord base (block * blockBytes)
  return .transfer
    { herd := 0, column, channel, direction, address, run := UInt32.ofNat blockBytes }

def batch (base : UInt64) : Except Failure (List Command) :=
  [ copy base 18 .hostToDevice 1 0, copy base 11 .hostToDevice 1 1,
    copy base 18 .deviceToHost 1 4, copy base 11 .deviceToHost 1 5,
    copy base 18 .hostToDevice 0 0, copy base 11 .hostToDevice 0 1,
    copy base 18 .deviceToHost 0 2, copy base 11 .deviceToHost 0 3 ].mapM id

def scaled (scale : Nat) (i : Nat) : UInt32 :=
  UInt32.ofNat (i * scale)

def tileChecks (t : TileArray) : Except Failure (List Check) := do
  let checks ← (buffers.zip [1, 2, 1, 2]).mapM fun entry => do
    let words ← (List.range blockWords).mapM (t.readBuffer entry.1)
    return Check.compare entry.1 (scaled entry.2) words
  return checks.flatten

/-- What a block of the staging buffer holds in the end. -/
def stagingChecks (d : Device) (block scale : Nat) : Operation (List Check) := do
  let words ← d.readStaging (block * blockWords) blockWords
  return Check.compare ("staging block " ++ toString block) (scaled scale) words

def run (d : Device) (policy : WaitPolicy) (seen : Observation Machine) : Operation Report := do
  d.ensureStaging stagingBytes
  d.configureTiles filledTiles
  d.writeStaging 0 image
  d.runCommand (.herdInit herd) policy seen
  let commands ← lift (do batch (← d.stagingAddress 0))
  let _ ← d.runBatch commands policy seen
  let inTiles ← d.checkTiles tileChecks
  let block2 ← stagingChecks d 2 1
  let block3 ← stagingChecks d 3 2
  let block4 ← stagingChecks d 4 1
  let block5 ← stagingChecks d 5 2
  return {
    name := "shim-dma-all-channels"
    checks := inTiles ++ block2 ++ block3 ++ block4 ++ block5 }

end FabricQueue.ShimDma
