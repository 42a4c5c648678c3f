import FabricQueue.Packet.Record
import FabricQueue.Packet.Transfer

set_option autoImplicit false

/-!
# Commands

What a packet asks of the fabric, its record form and its text. The argument words are

* herd declaration: `arg0 = range·2^48 + columns·2^40 + column·2^32 + rows·2^24 + row·2^16`,
  `arg1 = herd`;
* device set-up: `arg0 = columns`;
* transfer: `arg0 = direction·2^60 + burst·2^52 + column·2^32 + channel·2^24 + space·2^16 + herd`,
  `arg1 = address`, `arg2 = stride1·2^48 + count1·2^32 + run`,
  `arg3 = stride3·2^48 + count3·2^32 + stride2·2^16 + count2`.
-/

namespace FabricQueue

-- A rectangle of tiles under one number.
structure Herd where
  id : UInt16
  startColumn : UInt8
  columns : UInt8
  startRow : UInt8
  rows : UInt8
  deriving DecidableEq, Repr

inductive Command where
  | herdInit (herd : Herd)
  | deviceInit (columns : UInt8)
  | transfer (t : Transfer)
  deriving DecidableEq, Repr

-- Why a record holds no command.
inductive DecodeError where
  | unknownType (code : UInt16)
  | invalidDirection (code : UInt8)
  | unsupportedRange (code : UInt8)
  deriving DecidableEq, Repr

def DecodeError.message : DecodeError → String
  | .unknownType code => "unknown packet type " ++ Text.hexPadded 4 code.toNat
  | .invalidDirection code => "invalid nd-memcpy direction " ++ toString code.toNat
  | .unsupportedRange code => "unsupported herd address range " ++ Text.hex code.toNat

namespace TypeCode

def deviceInit : UInt16 := 0x10

def herdInit : UInt16 := 0x11

def transfer : UInt16 := 0x103

end TypeCode

/-- The herd's coordinates are positions on the whole array. -/
def absoluteRange : UInt8 := 1

namespace Command

def typeCode : Command → UInt16
  | herdInit _ => TypeCode.herdInit
  | deviceInit _ => TypeCode.deviceInit
  | transfer _ => TypeCode.transfer

def encode : Command → Record
  | herdInit h =>
    { header := Header.pending
      kind := TypeCode.herdInit
      signal := signalPending
      arg0 := UInt64.ofNat (absoluteRange.toNat <<< 48 + h.columns.toNat <<< 40 +
        h.startColumn.toNat <<< 32 + h.rows.toNat <<< 24 + h.startRow.toNat <<< 16)
      arg1 := UInt64.ofNat h.id.toNat }
  | deviceInit columns =>
    { header := Header.pending
      kind := TypeCode.deviceInit
      signal := signalPending
      arg0 := UInt64.ofNat columns.toNat }
  | transfer t =>
    { header := Header.pending
      kind := TypeCode.transfer
      signal := signalPending
      arg0 := UInt64.ofNat (t.direction.code.toNat <<< 60 + (t.burst.toNat % 16) <<< 52 +
        t.column.toNat <<< 32 + t.channel.toNat <<< 24 + t.space.toNat <<< 16 +
        t.herd.toNat)
      arg1 := t.address
      arg2 := UInt64.ofNat (t.inner.stride.toNat <<< 48 + t.inner.count.toNat <<< 32 +
        t.run.toNat)
      arg3 := UInt64.ofNat (t.outer.stride.toNat <<< 48 + t.outer.count.toNat <<< 32 +
        t.middle.stride.toNat <<< 16 + t.middle.count.toNat) }

def byteAt (w : UInt64) (low : Nat) : UInt8 :=
  UInt8.ofNat (w.toNat >>> low)

def halfAt (w : UInt64) (low : Nat) : UInt16 :=
  UInt16.ofNat (w.toNat >>> low)

/-- The command in a record. The header is not looked at. -/
def decode (r : Record) : Except DecodeError Command :=
  if r.kind = TypeCode.herdInit then
    let range := byteAt r.arg0 48
    if range = absoluteRange then
      .ok (.herdInit
        { id := halfAt r.arg1 0
          startColumn := byteAt r.arg0 32
          columns := byteAt r.arg0 40
          startRow := byteAt r.arg0 16
          rows := byteAt r.arg0 24 })
    else .error (.unsupportedRange range)
  else if r.kind = TypeCode.deviceInit then
    .ok (.deviceInit (byteAt r.arg0 0))
  else if r.kind = TypeCode.transfer then
    let code := byteAt r.arg0 60
    match Direction.ofCode? code with
    | none => .error (.invalidDirection code)
    | some direction =>
      .ok (.transfer
        { herd := halfAt r.arg0 0
          column := byteAt r.arg0 32
          channel := byteAt r.arg0 24
          direction
          burst := UInt8.ofNat ((r.arg0.toNat >>> 52) % 16)
          space := byteAt r.arg0 16
          address := r.arg1
          run := UInt32.ofNat r.arg2.toNat
          inner := ⟨halfAt r.arg2 32, halfAt r.arg2 48⟩
          middle := ⟨halfAt r.arg3 0, halfAt r.arg3 16⟩
          outer := ⟨halfAt r.arg3 32, halfAt r.arg3 48⟩ })
  else .error (.unknownType r.kind)

/-- The command in words. The byte count of a transfer is part of it and may overflow. -/
def text : Command → Except Overflow String
  | herdInit h =>
    .ok ("herd-init herd=" ++ toString h.id.toNat ++
      " cols=" ++ toString h.startColumn.toNat ++ "+" ++ toString h.columns.toNat ++
      " rows=" ++ toString h.startRow.toNat ++ "+" ++ toString h.rows.toNat)
  | deviceInit columns => .ok ("device-init cols=" ++ toString columns.toNat)
  | transfer t =>
    t.byteCount.map fun count =>
      "nd-memcpy " ++ t.direction.text ++ " col=" ++ toString t.column.toNat ++
        " ch=" ++ toString t.channel.toNat ++ " addr=" ++ Text.hex t.address.toNat ++
        " bytes=" ++ toString count

end Command

end FabricQueue
