set_option autoImplicit false

namespace FabricQueue.CommandLine

inductive UsageError where
  | missingCommand
  | unknownCommand (name : String)
  | unexpected (argument : String)
  | missingValue (argument : String)
  | repeated (argument : String)
  | missing (arguments : List String)
  | wrongCount (argument : String) (wanted got : Nat)
  | invalidValue (value argument reason : String)
  | invalidChoice (value argument : String)
  | needlessValue (value argument : String)
  -- Nothing is wrong: the page of a command was asked for, and no argument behind is read.
  | help (command : List String)
  deriving DecidableEq, Repr

def UsageError.message : UsageError → String
  | .missingCommand => "error: a subcommand is required but one was not provided"
  | .unknownCommand name => "error: unrecognized subcommand '" ++ name ++ "'"
  | .unexpected argument => "error: unexpected argument '" ++ argument ++ "' found"
  | .missingValue argument =>
    "error: a value is required for '" ++ argument ++ "' but none was supplied"
  | .repeated argument => "error: the argument '" ++ argument ++ "' cannot be used multiple times"
  | .missing arguments =>
    "error: the following required arguments were not provided:\n  " ++
      "\n  ".intercalate arguments
  | .wrongCount argument wanted got =>
    "error: " ++ toString wanted ++ " values required for '" ++ argument ++ "' but " ++
      toString got ++ " were provided"
  | .invalidValue value argument reason =>
    "error: invalid value '" ++ value ++ "' for '" ++ argument ++ "': " ++ reason
  | .invalidChoice value argument =>
    "error: invalid value '" ++ value ++ "' for '" ++ argument ++ "'"
  | .needlessValue value argument =>
    "error: unexpected value '" ++ value ++ "' for '" ++ argument ++
      "' found; no more were expected"
  | .help _ => ""

-- A flag that stores its value in a record of arguments.
structure Flag (S : Type) where
  name : String
  label : String
  -- The value is there already and there can be only one.
  taken : S → Bool
  store : String → S → Except UsageError S

namespace Flag

variable {S : Type}

/-- The flag and its value as usage texts write them. -/
def argument (name label : String) : String :=
  "--" ++ name ++ " <" ++ label ++ ">"

def text (f : Flag S) : String :=
  argument f.name f.label

/-- Store a value, if the flag does not have one that excludes it. -/
def set (f : Flag S) (value : String) (s : S) : Except UsageError S :=
  if f.taken s then .error (.repeated f.text) else f.store value s

end Flag

-- The arguments a command takes.
structure Grammar (S : Type) where
  -- The words that name the command.
  command : List String
  flags : List (Flag S) := []
  -- How many words it takes at most.
  words : Nat := 0
  storeWords : List String → S → Except UsageError S := fun _ s => .ok s

-- An argument that may still get more.
inductive Pending (S : Type) where
  | nothing
  | flag (f : Flag S) (value : Option String)
  | words (values : List String)

namespace Grammar

variable {S : Type}

def resolve (g : Grammar S) (s : S) : Pending S → Except UsageError S
  | .nothing => .ok s
  | .flag f none => .error (.missingValue f.text)
  | .flag f (some value) => f.set value s
  | .words values => g.storeWords values s

/-- The name of a flag and the value that is attached to it by `=`. -/
def splitFlag : List Char → List Char × Option (List Char)
  | [] => ([], none)
  | '=' :: value => ([], some value)
  | c :: rest =>
    let (name, value) := splitFlag rest
    (c :: name, value)

/-- The page of the command. What was read before is looked at first. -/
def help (g : Grammar S) (s : S) (pending : Pending S) : Except UsageError S := do
  let _ ← g.resolve s pending
  throw (.help g.command)

def flag? (g : Grammar S) (name : List Char) : Option (Flag S) :=
  g.flags.find? fun f => f.name.toList == name

def word (g : Grammar S) (used : Nat) (token : String) (s : S) :
    Pending S → Except UsageError (S × Pending S)
  | .words values =>
    if g.words ≤ used then .error (.unexpected token) else .ok (s, .words (values ++ [token]))
  | pending => do
    if g.words ≤ used then
      throw (.unexpected token)
    return (← g.resolve s pending, .words [token])

/-- Take the arguments behind `--`, which are all words. -/
def takeWords (g : Grammar S) : (used : Nat) → S → Pending S → List String → Except UsageError S
  | _, s, pending, [] => g.resolve s pending
  | used, s, pending, token :: rest => do
    let (s, pending) ← g.word used token s pending
    g.takeWords (used + 1) s pending rest

def take (g : Grammar S) : (used : Nat) → S → Pending S → List String → Except UsageError S
  | _, s, pending, [] => g.resolve s pending
  | used, s, pending, token :: rest =>
    match token.toList with
    | ['-', '-'] => g.takeWords used s pending rest
    | '-' :: '-' :: body =>
      let (name, value) := splitFlag body
      match g.flag? name with
      | none =>
        if name = "help".toList then
          match value with
          | some value => .error (.needlessValue (String.ofList value) "--help")
          | none => g.help s pending
        else .error (.unexpected token)
      | some f => do
        let s ← g.resolve s pending
        match value with
        | some value =>
          let s ← f.set (String.ofList value) s
          g.take used s .nothing rest
        | none => g.take used s (.flag f none) rest
    | '-' :: 'h' :: _ => g.help s pending
    | '-' :: _ :: _ => .error (.unexpected token)
    | _ =>
      match pending with
      | .flag f none => g.take used s (.flag f (some token)) rest
      | pending => do
        let (s, pending) ← g.word used token s pending
        g.take (used + 1) s pending rest

def parse (g : Grammar S) (start : S) (tokens : List String) : Except UsageError S :=
  g.take 0 start .nothing tokens

end Grammar

end FabricQueue.CommandLine
