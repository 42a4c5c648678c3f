import FabricQueue.Tile.Buffer

set_option autoImplicit false

namespace FabricQueue

-- Names of the two inputs and the output of an addition.
structure AddBuffers where
  left : String
  right : String
  sum : String
  deriving DecidableEq, Repr

structure AddKernel where
  ping : AddBuffers
  pong : AddBuffers
  -- The pong set is next.
  onPong : Bool := false
  deriving DecidableEq, Repr

namespace AddKernel

def name : String := "add"

def current (k : AddKernel) : AddBuffers :=
  if k.onPong then k.pong else k.ping

/-- Add once if both inputs are full and the output is empty: the inputs are released, the output is
full, and the other set is next. -/
def step (k : AddKernel) (s : TileBuffers) : Option (AddKernel × TileBuffers) :=
  let names := k.current
  match s.find? names.left, s.find? names.right, s.find? names.sum with
  | some left, some right, some sum =>
    if left.full && right.full && !sum.full then
      let total := List.zipWith (· + ·) left.words right.words
      let s := s.modifyNamed names.sum fun b => b.load total
      let s := s.modifyNamed names.left fun b => b.setFull false
      let s := s.modifyNamed names.right fun b => b.setFull false
      let s := s.modifyNamed names.sum fun b => b.setFull true
      some ({ k with onPong := !k.onPong }, s)
    else none
  | _, _, _ => none

/-- Step every kernel once, in order. Tells whether any did something. -/
def stepAll : List AddKernel → TileBuffers → Bool × List AddKernel × TileBuffers
  | [], s => (false, [], s)
  | k :: rest, s =>
    match k.step s with
    | some (k, s) =>
      let (_, rest, s) := stepAll rest s
      (true, k :: rest, s)
    | none =>
      let (moved, rest, s) := stepAll rest s
      (moved, k :: rest, s)

end AddKernel

end FabricQueue
