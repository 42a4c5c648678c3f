import FabricQueue.Packet.Transfer

set_option autoImplicit false

namespace FabricQueue

-- One end of a shim channel: the stream between host memory and the tiles behind a column.
structure Endpoint where
  column : UInt8
  channel : UInt8
  direction : Direction
  deriving DecidableEq, Repr

namespace Endpoint

def text (e : Endpoint) : String :=
  let engine := match e.direction with
    | .hostToDevice => "MM2S"
    | .deviceToHost => "S2MM"
  "col" ++ toString e.column.toNat ++ "/" ++ engine ++ toString e.channel.toNat

end Endpoint

def Transfer.endpoint (t : Transfer) : Endpoint :=
  ⟨t.column, t.channel, t.direction⟩

end FabricQueue
