import FabricQueue.Text.Hex

set_option autoImplicit false

namespace FabricQueue

-- Which arithmetic of 64-bit words left its range.
inductive Overflow where
  | addition
  | multiplication
  deriving DecidableEq, Repr

def Overflow.message : Overflow → String
  | .addition => "attempt to add with overflow"
  | .multiplication => "attempt to multiply with overflow"

inductive Direction where
  | deviceToHost
  | hostToDevice
  deriving DecidableEq, Repr

namespace Direction

def code : Direction → UInt8
  | deviceToHost => 0
  | hostToDevice => 1

def ofCode? (code : UInt8) : Option Direction :=
  if code = 0 then some deviceToHost
  else if code = 1 then some hostToDevice
  else none

def text : Direction → String
  | deviceToHost => "device->host"
  | hostToDevice => "host->device"

end Direction

structure Dim where
  count : UInt16
  stride : UInt16
  deriving DecidableEq, Repr

namespace Dim

def unit : Dim := ⟨1, 0⟩

def repeats (d : Dim) : Nat :=
  if d.count = 0 then 1 else d.count.toNat

/-- Distance from the first repeat to the last. -/
def reach (d : Dim) : Nat :=
  (d.repeats - 1) * d.stride.toNat

end Dim

structure Transfer where
  herd : UInt16
  column : UInt8
  channel : UInt8
  direction : Direction
  burst : UInt8 := 4
  space : UInt8 := 2
  address : UInt64
  run : UInt32
  inner : Dim := Dim.unit
  middle : Dim := Dim.unit
  outer : Dim := Dim.unit
  deriving DecidableEq, Repr

namespace Transfer

def runs (t : Transfer) : Nat :=
  t.inner.repeats * t.middle.repeats * t.outer.repeats

def totalBytes (t : Transfer) : Nat :=
  t.runs * t.run.toNat

def byteCount (t : Transfer) : Except Overflow Nat :=
  if t.totalBytes < UInt64.size then .ok t.totalBytes else .error .multiplication

/-- One past the highest byte touched, counted from the address. -/
def extent (t : Transfer) : Nat :=
  if t.run = 0 then 0
  else t.inner.reach + t.middle.reach + t.outer.reach + t.run.toNat

end Transfer

end FabricQueue
