import FabricQueue.CommandLine.Usage
import FabricQueue.Scenario.Scenario

set_option autoImplicit false

namespace FabricQueue.CommandLine

-- A packet to encode. The dimensions of a transfer are counted only later.
inductive EncodeRequest where
  | command (c : Command)
  | transfer (t : Transfer) (dims : List Dim)
  deriving DecidableEq, Repr

inductive Invocation where
  | version
  | config
  | encode (request : EncodeRequest)
  | decode (words : List UInt64)
  | probe
  | validate (scenarios : List Scenario) (selection : Selection) (timeout : Nat)
  deriving DecidableEq, Repr

/-- Read a number up to `max`. A number is read first as a signed 64-bit one. -/
def readRanged (max : Nat) (argument value : String) : Except UsageError Nat :=
  match Text.readSigned 10 (1 <<< 63) value.toList with
  | .error cause => .error (.invalidValue value argument cause.message)
  | .ok n =>
    if 0 ≤ n ∧ n ≤ max then .ok n.toNat
    else
      .error (.invalidValue value argument (toString n ++ " is not in 0..=" ++ toString max))

def readAddress (argument value : String) : Except UsageError UInt64 :=
  match Text.readWord value.toList with
  | .ok word => .ok word
  | .error cause =>
    .error (.invalidValue value argument
      ("invalid number " ++ Text.quoted value ++ ": " ++ cause.message))

def splitColon : List Char → Option (List Char × List Char)
  | [] => none
  | ':' :: rest => some ([], rest)
  | c :: rest => (splitColon rest).map fun parts => (c :: parts.1, parts.2)

def readSide (side argument value : String) (text : List Char) : Except UsageError UInt16 :=
  match Text.readUnsigned 10 UInt16.size text with
  | .ok n => .ok (UInt16.ofNat n)
  | .error cause =>
    .error (.invalidValue value argument
      ("bad " ++ side ++ " " ++ Text.quoted (String.ofList text) ++ ": " ++ cause.message))

def readDim (argument value : String) : Except UsageError Dim :=
  match splitColon value.toList with
  | none =>
    .error (.invalidValue value argument ("expected count:stride, got " ++ Text.quoted value))
  | some (count, stride) => do
    let count ← readSide "count" argument value count
    let stride ← readSide "stride" argument value stride
    return ⟨count, stride⟩

def readChoice {α : Type} (choices : List (String × α)) (argument value : String) :
    Except UsageError α :=
  match choices.lookup value with
  | some a => .ok a
  | none => .error (.invalidChoice value argument)

def single {S α : Type} (name label : String) (read : String → String → Except UsageError α)
    (get : S → Option α) (set : S → α → S) : Flag S where
  name := name
  label := label
  taken := fun s => (get s).isSome
  store := fun value s => (read (Flag.argument name label) value).map (set s)

def readByte (argument value : String) : Except UsageError UInt8 :=
  (readRanged 255 argument value).map UInt8.ofNat

def readHalf (argument value : String) : Except UsageError UInt16 :=
  (readRanged 65535 argument value).map UInt16.ofNat

def readLength (argument value : String) : Except UsageError UInt32 :=
  (readRanged 4294967295 argument value).map UInt32.ofNat

def require {α : Type} (name label : String) : Option α → Except UsageError α
  | some a => .ok a
  | none => .error (.missing [Flag.argument name label])

structure HerdArguments where
  herd : Option UInt16 := none
  col : Option UInt8 := none
  cols : Option UInt8 := none
  row : Option UInt8 := none
  rows : Option UInt8 := none

def herdGrammar : Grammar HerdArguments where
  command := ["encode", "herd-init"]
  flags := [
    single "herd" "HERD" readHalf (·.herd) fun s v => { s with herd := some v },
    single "col" "COL" readByte (·.col) fun s v => { s with col := some v },
    single "cols" "COLS" readByte (·.cols) fun s v => { s with cols := some v },
    single "row" "ROW" readByte (·.row) fun s v => { s with row := some v },
    single "rows" "ROWS" readByte (·.rows) fun s v => { s with rows := some v }]

def HerdArguments.request (a : HerdArguments) : Except UsageError EncodeRequest := do
  let col ← require "col" "COL" a.col
  return .command (.herdInit
    { id := a.herd.getD 0
      startColumn := col
      columns := a.cols.getD 1
      startRow := a.row.getD 0
      rows := a.rows.getD 1 })

structure DeviceArguments where
  columns : Option UInt8 := none

def deviceGrammar : Grammar DeviceArguments where
  command := ["encode", "device-init"]
  flags := [
    single "columns" "COLUMNS" readByte (·.columns) fun s v => { s with columns := some v }]

def DeviceArguments.request (a : DeviceArguments) : Except UsageError EncodeRequest := do
  return .command (.deviceInit (← require "columns" "COLUMNS" a.columns))

structure TransferArguments where
  herd : Option UInt16 := none
  col : Option UInt8 := none
  channel : Option UInt8 := none
  direction : Option Direction := none
  address : Option UInt64 := none
  length : Option UInt32 := none
  dims : List Dim := []

def directionChoices : List (String × Direction) :=
  [("h2d", .hostToDevice), ("d2h", .deviceToHost)]

def transferGrammar : Grammar TransferArguments where
  command := ["encode", "nd-memcpy"]
  flags := [
    single "herd" "HERD" readHalf (·.herd) fun s v => { s with herd := some v },
    single "col" "COL" readByte (·.col) fun s v => { s with col := some v },
    single "channel" "CHANNEL" readByte (·.channel) fun s v => { s with channel := some v },
    single "direction" "DIRECTION" (readChoice directionChoices) (·.direction)
      fun s v => { s with direction := some v },
    single "addr" "ADDR" readAddress (·.address) fun s v => { s with address := some v },
    single "len" "LEN" readLength (·.length) fun s v => { s with length := some v },
    { name := "dim"
      label := "DIMS"
      taken := fun _ => false
      store := fun value s =>
        (readDim (Flag.argument "dim" "DIMS") value).map fun d =>
          { s with dims := s.dims ++ [d] } }]

def TransferArguments.request (a : TransferArguments) : Except UsageError EncodeRequest := do
  let column ← require "col" "COL" a.col
  let direction ← require "direction" "DIRECTION" a.direction
  let address ← require "addr" "ADDR" a.address
  let run ← require "len" "LEN" a.length
  return .transfer
    { herd := a.herd.getD 0, column, channel := a.channel.getD 0, direction, address, run } a.dims

structure DecodeArguments where
  words : List UInt64 := []

/-- The words of a record: all eight or none. -/
def decodeGrammar : Grammar DecodeArguments where
  command := ["decode"]
  words := 8
  storeWords := fun values _ =>
    if values.length = 8 then do
      return { words := ← values.mapM (readAddress "[WORDS] [WORDS]...") }
    else .error (.wrongCount "[WORDS] [WORDS]..." 8 values.length)

structure ValidateArguments where
  scenarios : Option (List Scenario) := none
  selection : Option Selection := none
  timeout : Option Nat := none

def scenarioChoices : List (String × List Scenario) :=
  [("shim-dma", [.shimDma]), ("matrix-add", [.matrixAdd]), ("all", Scenario.all)]

def selectionChoices : List (String × Selection) :=
  [("auto", .auto), ("hardware", .hardware), ("software", .software)]

def readTime (argument value : String) : Except UsageError Nat :=
  match Text.readUnsigned 10 UInt64.size value.toList with
  | .ok n => .ok n
  | .error cause => .error (.invalidValue value argument cause.message)

def validateGrammar : Grammar ValidateArguments where
  command := ["validate"]
  flags := [
    single "backend" "BACKEND" (readChoice selectionChoices) (·.selection)
      fun s v => { s with selection := some v },
    single "timeout-ms" "TIMEOUT_MS" readTime (·.timeout) fun s v => { s with timeout := some v }]
  words := 1
  storeWords := fun values s =>
    values.foldlM (fun s value => do
      let scenarios ← readChoice scenarioChoices "[SCENARIO]" value
      return { s with scenarios := some scenarios }) s

def ValidateArguments.invocation (a : ValidateArguments) : Invocation :=
  .validate (a.scenarios.getD Scenario.all) (a.selection.getD .software) (a.timeout.getD 10000)

def plain (invocation : Invocation) (command : String) (tokens : List String) :
    Except UsageError Invocation := do
  let _ ← Grammar.parse { command := [command], flags := ([] : List (Flag Unit)) } () tokens
  return invocation

def isFlag (token : String) : Bool :=
  match token.toList with
  | '-' :: _ :: _ => true
  | _ => false

/-- The commands below a command. -/
def subcommands : (command : List String) → List String
  | [] => ["config", "encode", "decode", "probe", "validate", "help"]
  | ["encode"] => ["herd-init", "device-init", "nd-memcpy", "help"]
  | _ => []

/-- The page of the command that `names` lead to from another one. -/
def helpOn : (command names : List String) → UsageError
  | command, [] => .help command
  | command, name :: rest =>
    if name ∈ subcommands command then helpOn (command ++ [name]) rest else .unknownCommand name

/-- An argument in the place of a command. -/
def misplaced (command : List String) (token : String) : UsageError :=
  match token.toList with
  | '-' :: 'h' :: _ => .help command
  | '-' :: '-' :: body =>
    match Grammar.splitFlag body with
    | (['h', 'e', 'l', 'p'], none) => .help command
    | (['h', 'e', 'l', 'p'], some value) => .needlessValue (String.ofList value) "--help"
    | _ => .unexpected token
  | _ => if isFlag token then .unexpected token else .unknownCommand token

def parseEncode : List String → Except UsageError EncodeRequest
  | [] => .error .missingCommand
  | "herd-init" :: rest => do (← herdGrammar.parse {} rest).request
  | "device-init" :: rest => do (← deviceGrammar.parse {} rest).request
  | "nd-memcpy" :: rest => do (← transferGrammar.parse {} rest).request
  | "help" :: names => .error (helpOn ["encode"] names)
  | token :: _ => .error (misplaced ["encode"] token)

def asksVersion (token : String) : Bool :=
  token == "--version" || "-V".toList.isPrefixOf token.toList

def parse : List String → Except UsageError Invocation
  | [] => .error .missingCommand
  | "config" :: rest => plain .config "config" rest
  | "encode" :: rest => (parseEncode rest).map Invocation.encode
  | "decode" :: rest => do return .decode (← decodeGrammar.parse {} rest).words
  | "probe" :: rest => plain .probe "probe" rest
  | "validate" :: rest => do return (← validateGrammar.parse {} rest).invocation
  | "help" :: names => .error (helpOn [] names)
  | token :: _ => if asksVersion token then .ok .version else .error (misplaced [] token)

end FabricQueue.CommandLine
