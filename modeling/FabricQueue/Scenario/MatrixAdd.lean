import FabricQueue.Scenario.Report

set_option autoImplicit false

namespace FabricQueue.MatrixAdd

def imageWidth : Nat := 128

def imageHeight : Nat := 16

def imageWords : Nat := imageWidth * imageHeight

def tileWidth : Nat := 16

def tileHeight : Nat := 8

def tileWords : Nat := tileWidth * tileHeight

def stagingBytes : Nat := 3 * imageWords * 4

def column : UInt8 := 7

def ping : AddBuffers := ⟨"ping_a", "ping_b", "ping_c"⟩

def pong : AddBuffers := ⟨"pong_a", "pong_b", "pong_c"⟩

def tiles : Except ConfigFault TileArray := do
  let t ← TileArray.addBuffers tileWords
    ["ping_a", "pong_a", "ping_b", "pong_b", "ping_c", "pong_c"] {}
  let t ← t.route ⟨column, 0, .hostToDevice⟩ ["ping_a", "pong_a"]
  let t ← t.route ⟨column, 1, .hostToDevice⟩ ["ping_b", "pong_b"]
  let t ← t.route ⟨column, 0, .deviceToHost⟩ ["ping_c", "pong_c"]
  return t.addKernel { ping, pong }

/-- Fill words that tell the buffers and their words apart. -/
def pattern (start : Nat) : List UInt32 :=
  (List.range tileWords).map fun i => UInt32.ofNat (start + i)

/-- The same with fill words in every buffer. -/
def filledTiles : Except Failure TileArray := do
  let t ← tiles.mapError fun fault => .error (.invalidConfig fault)
  let t ← t.writeWords "ping_a" (pattern 0xabba0000)
  let t ← t.writeWords "pong_a" (pattern 0xdeeded00)
  let t ← t.writeWords "ping_b" (pattern 0xcafe0000)
  let t ← t.writeWords "pong_b" (pattern 0xfabcab00)
  let t ← t.writeWords "ping_c" (pattern 0x12345670)
  t.writeWords "pong_c" (pattern 0x76543210)

/-- The two images and the place of their sum. -/
def image : List UInt32 :=
  (List.range imageWords).map (fun i => UInt32.ofNat (i + 1)) ++
    List.replicate imageWords 1 ++ List.replicate imageWords 0x00deface

def herd : Herd where
  id := 0
  startColumn := column
  columns := 1
  startRow := 0
  rows := 3

/-- Stream the image at `address` tile by tile, a row of tiles after the other, and each tile row by
row. -/
def tiledTransfer (channel : UInt8) (direction : Direction) (address : UInt64) : Transfer where
  herd := 0
  column := column
  channel := channel
  direction := direction
  address := address
  run := UInt32.ofNat (tileWidth * 4)
  inner := ⟨UInt16.ofNat tileHeight, UInt16.ofNat (imageWidth * 4)⟩
  middle := ⟨UInt16.ofNat (imageWidth / tileWidth), UInt16.ofNat (tileWidth * 4)⟩
  outer := ⟨UInt16.ofNat (imageHeight / tileHeight), UInt16.ofNat (imageWidth * tileHeight * 4)⟩

def submitImage (d : Device) (channel : UInt8) (direction : Direction) (image : Nat)
    (seen : Observation Machine) : Operation PacketRef := do
  let address ← lift (d.stagingAddress (image * imageWords * 4))
  d.submit (.transfer (tiledTransfer channel direction address)) seen

/-- The sum in one set of buffers, word by word. -/
def setCheck (t : TileArray) (index : Nat) (names : AddBuffers) : Except Failure Check := do
  let left ← t.readBuffer names.left index
  let right ← t.readBuffer names.right index
  let sum ← t.readBuffer names.sum index
  return ⟨names.sum, index, left + right, sum⟩

def tileChecks (t : TileArray) : Except Failure (List Check) := do
  let checks ← (List.range tileWords).mapM fun i => [ping, pong].mapM (setCheck t i)
  return checks.flatten

def run (d : Device) (policy : WaitPolicy) (seen : Observation Machine) : Operation Report := do
  d.ensureStaging stagingBytes
  d.configureTiles filledTiles
  d.writeStaging 0 image
  d.runCommand (.herdInit herd) policy seen
  d.runCommand (.deviceInit d.config.numColumns) policy seen
  let sum ← submitImage d 0 .deviceToHost 2 seen
  let _ ← submitImage d 0 .hostToDevice 0 seen
  let right ← submitImage d 1 .hostToDevice 1 seen
  d.dispatchAndWait right.index sum policy seen
  let inTiles ← d.checkTiles tileChecks
  let words ← d.readStaging (2 * imageWords) imageWords
  return {
    name := "matrix-add"
    checks := inTiles ++ Check.compare "output image" (fun i => UInt32.ofNat (i + 2)) words }

end FabricQueue.MatrixAdd
