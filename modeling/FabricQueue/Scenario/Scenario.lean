import FabricQueue.Scenario.MatrixAdd
import FabricQueue.Scenario.ShimDma

set_option autoImplicit false

namespace FabricQueue

inductive Scenario where
  | shimDma
  | matrixAdd
  deriving DecidableEq, Repr

namespace Scenario

/-- Every scenario, in the order they are usually run. -/
def all : List Scenario :=
  [shimDma, matrixAdd]

def text : Scenario → String
  | shimDma => "shim-dma"
  | matrixAdd => "matrix-add"

def tiles : Scenario → Except ConfigFault TileArray
  | shimDma => ShimDma.tiles
  | matrixAdd => MatrixAdd.tiles

def run : Scenario → Device → WaitPolicy → Observation Machine → Operation Report
  | shimDma => ShimDma.run
  | matrixAdd => MatrixAdd.run

end Scenario

end FabricQueue
