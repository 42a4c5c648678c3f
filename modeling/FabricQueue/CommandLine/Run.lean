import FabricQueue.CommandLine.Invocation

set_option autoImplicit false

namespace FabricQueue.CommandLine

-- How an invocation ended.
inductive Ending where
  | success
  | failed (message : String) (cause : Option String)
  | misused (cause : UsageError)
  -- The page of a command was printed. It is no part of the output here.
  | helped (command : List String)
  | overflowed (cause : Overflow)
  -- It waits for something that never comes.
  | waiting
  deriving DecidableEq, Repr

structure Outcome where
  output : String
  ending : Ending
  deriving DecidableEq, Repr

/-- Lines of a cause stand under its heading, moved in. -/
def indented (text : String) : String :=
  String.ofList ((' ' :: ' ' :: ' ' :: ' ' :: text.toList).flatMap fun c =>
    if c = '\n' then ['\n', ' ', ' ', ' ', ' '] else [c])

namespace Ending

/-- The exit code, if there is an exit. -/
def code : Ending → Option Nat
  | success => some 0
  | failed _ _ => some 1
  | misused _ => some 2
  | helped _ => some 0
  | overflowed _ => some 101
  | waiting => none

/-- What goes to the error output. -/
def complaint : Ending → String
  | success => ""
  | failed message none => "Error: " ++ message ++ "\n"
  | failed message (some cause) =>
    "Error: " ++ message ++ "\n\nCaused by:\n" ++ indented cause ++ "\n"
  | misused cause => cause.message ++ "\n"
  | helped _ => ""
  | overflowed cause => cause.message ++ "\n"
  | waiting => ""

/-- The ending after a failure, under a heading if there is one. -/
def ofFailure (heading : Option String) : Failure → Ending
  | .error cause =>
    match heading with
    | some heading => .failed heading (some cause.message)
    | none => .failed cause.message none
  | .overflow cause => .overflowed cause
  | .stillWaiting => .waiting

def ofUsage : UsageError → Ending
  | .help command => helped command
  | cause => misused cause

end Ending

def lines (texts : List String) : String :=
  String.join (texts.map fun text => text ++ "\n")

def printed (texts : List String) : Outcome :=
  ⟨lines texts, .success⟩

def configLines (c : Config) : List String :=
  [ "Memory device : " ++ c.memDevice,
    "Queue         : " ++ Text.hex c.queueBase.toNat ++ "  " ++
      toString c.queueCapacity.toNat ++ " slots  " ++ c.queueKind.text ++ "  (" ++
      Text.hex c.queueRegionSize ++ " bytes)",
    "Staging       : " ++ Text.hex c.stagingBase.toNat ++ "  " ++ Text.hex c.stagingSize.toNat ++
      " bytes",
    "Columns       : " ++ toString c.numColumns.toNat ]

def withConfig {α : Type} (lookup : String → Option String) (refuse : Outcome → α)
    (use : Config → α) : α :=
  match Config.ofVariables lookup with
  | .ok c => use c
  | .error fault => refuse ⟨"", .failed (Error.invalidConfig fault).message none⟩

def runConfig (lookup : String → Option String) : Outcome :=
  withConfig lookup id fun c => printed (configLines c)

def wordLines (r : Record) : List String :=
  r.toWords.toList.zipIdx.map fun entry =>
    toString entry.2 ++ ": " ++ Text.hexPadded 16 entry.1.toNat

/-- Print a command and the words of its record, behind the given lines. -/
def encodeCommand (before : List String) (c : Command) : Outcome :=
  match c.text with
  | .ok text => printed (before ++ ["# " ++ text] ++ wordLines c.encode)
  | .error cause => ⟨lines before, .overflowed cause⟩

/-- A transfer with up to three dimensions, the inner one first. -/
def withDims (t : Transfer) (dims : List Dim) : Transfer :=
  { t with
    inner := dims.getD 0 Dim.unit
    middle := dims.getD 1 Dim.unit
    outer := dims.getD 2 Dim.unit }

def runEncode : EncodeRequest → Outcome
  | .command c => encodeCommand [] c
  | .transfer t dims =>
    if 3 < dims.length then
      ⟨"", .failed ("at most three outer dimensions, got " ++ toString dims.length) none⟩
    else
      let t := withDims t dims
      match t.byteCount with
      | .error cause => ⟨"", .overflowed cause⟩
      | .ok count =>
        encodeCommand ["# " ++ toString count ++ " bytes, extent " ++ Text.hex t.extent]
          (.transfer t)

def headerLine (r : Record) : String :=
  "header " ++ Text.hexPadded 4 r.header.toNat ++ " (" ++
    (if r.isActive then "active" else "pending") ++ ")  type " ++ Text.hex r.kind.toNat ++
    "  signal " ++ toString r.signal.toNat

def decodeRecord (r : Record) : Outcome :=
  match Command.decode r with
  | .error cause => ⟨lines [headerLine r], .failed "not an AIR packet" (some cause.message)⟩
  | .ok c =>
    match c.text with
    | .ok text => printed [headerLine r, text]
    | .error cause => ⟨lines [headerLine r], .overflowed cause⟩

def runDecode (words : List UInt64) : Outcome :=
  if h : words.toArray.size = 8 then decodeRecord (Record.ofWords ⟨words.toArray, h⟩)
  else ⟨"", .failed ("expected 8 words, got " ++ toString words.length) none⟩

def headerLines (h : QueueHeader) : List String :=
  [ "Queue id      : " ++ toString h.id.toNat,
    "Type          : " ++ ((QueueKind.ofCode? h.kind).map QueueKind.text).getD
      ("unknown (" ++ toString h.kind.toNat ++ ")"),
    "Features      : " ++ Text.hex h.features.toNat,
    "Base address  : " ++ Text.hex h.baseAddress.toNat,
    "Size          : " ++ toString h.size.toNat ++ " slots",
    "Read index    : " ++ toString h.readIndex.toNat,
    "Write index   : " ++ toString h.writeIndex.toNat,
    "Published     : " ++ toString h.published.toNat,
    "In flight     : " ++ toString h.inFlight ]

/-- Map the queue region and print its header. -/
def runProbe (c : Config) (m : Machine) : Outcome × Machine :=
  match Machine.mapWindow c.memDevice c.queueBase c.queueRegionSize m with
  | .error failure m =>
    (⟨"", .ofFailure (some ("mapping queue at " ++ Text.hex c.queueBase.toNat)) failure⟩, m)
  | .ok region m =>
    match Machine.onMemory (QueueHeader.read region) m with
    | .error failure m => (⟨"", .ofFailure none failure⟩, m)
    | .ok header m => (printed (headerLines header), m)

def shownMismatches : Nat := 8

def reportLines (r : Report) : List String :=
  r.text :: (r.mismatches.take shownMismatches).map fun c => "  " ++ c.text

/-- Run scenarios one after the other; `printed` and `failed` stand for those before. -/
def runScenarios (d : Device) (policy : WaitPolicy) (seen : Observation Machine) :
    (printed : String) → (failed : Nat) → List Scenario → Machine → Outcome × Machine
  | printed, failed, [], m =>
    if 0 < failed then
      (⟨printed, .failed (toString failed ++ " scenario(s) failed") none⟩, m)
    else (⟨printed, .success⟩, m)
  | printed, failed, scenario :: rest, m =>
    match scenario.run d policy seen m with
    | .error failure m =>
      (⟨printed, .ofFailure (some ("running " ++ scenario.text)) failure⟩, m)
    | .ok report m =>
      runScenarios d policy seen (printed ++ lines (reportLines report))
        (if report.passed then failed else failed + 1) rest m

/-- The policy for a time in milliseconds, where 0 means for ever. -/
def timeoutPolicy (milliseconds : Nat) : WaitPolicy :=
  if milliseconds = 0 then .indefinite else .bounded (1000000 * milliseconds)

def runValidate (c : Config) (scenarios : List Scenario) (selection : Selection) (timeout : Nat)
    (seen : Observation Machine) (m : Machine) : Outcome × Machine :=
  match Device.ofConfig c selection m with
  | .error failure m => (⟨"", .ofFailure none failure⟩, m)
  | .ok d m =>
    runScenarios d (timeoutPolicy timeout) seen (lines ["Backend: " ++ d.backend.text]) 0
      scenarios m

def runInvocation (lookup : String → Option String) (seen : Observation Machine) (m : Machine) :
    Invocation → Outcome × Machine
  | .version => (printed ["air 0.1.0"], m)
  | .config => (runConfig lookup, m)
  | .encode request => (runEncode request, m)
  | .decode words => (runDecode words, m)
  | .probe => withConfig lookup (·, m) fun c => runProbe c m
  | .validate scenarios selection timeout =>
    withConfig lookup (·, m) fun c => runValidate c scenarios selection timeout seen m

def run (arguments : List String) (lookup : String → Option String) (seen : Observation Machine)
    (m : Machine) : Outcome × Machine :=
  match parse arguments with
  | .error cause => (⟨"", .ofUsage cause⟩, m)
  | .ok invocation => runInvocation lookup seen m invocation

end FabricQueue.CommandLine
