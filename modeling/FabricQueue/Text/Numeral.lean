set_option autoImplicit false

namespace FabricQueue.Text

-- Why a text is no number of the wanted type.
inductive NumeralFault where
  | empty
  | invalidDigit
  | tooLarge
  | tooSmall
  deriving DecidableEq, Repr

def NumeralFault.message : NumeralFault → String
  | .empty => "cannot parse integer from empty string"
  | .invalidDigit => "invalid digit found in string"
  | .tooLarge => "number too large to fit in target type"
  | .tooSmall => "number too small to fit in target type"

/-- Value of a digit in a base up to 16; letters of either case. -/
def digit? (base : Nat) (c : Char) : Option Nat :=
  let value :=
    if '0' ≤ c ∧ c ≤ '9' then c.toNat - '0'.toNat
    else if 'a' ≤ c ∧ c ≤ 'f' then c.toNat - 'a'.toNat + 10
    else if 'A' ≤ c ∧ c ≤ 'F' then c.toNat - 'A'.toNat + 10
    else 16
  if value < base then some value else none

/-- Read digits behind a number already read. A digit is judged before the size it leads to. -/
def readDigits (base bound : Nat) : Nat → List Char → Except NumeralFault Nat
  | value, [] => .ok value
  | value, c :: rest =>
    match digit? base c with
    | none => .error .invalidDigit
    | some d =>
      if value * base + d < bound then readDigits base bound (value * base + d) rest
      else .error .tooLarge

def readUnsigned (base bound : Nat) : List Char → Except NumeralFault Nat
  | [] => .error .empty
  | ['+'] => .error .invalidDigit
  | '+' :: rest => readDigits base bound 0 rest
  | digits => readDigits base bound 0 digits

/-- Read a number from `-bound` up to and without `bound`. -/
def readSigned (base bound : Nat) : List Char → Except NumeralFault Int
  | ['-'] => .error .invalidDigit
  | '-' :: rest =>
    match readDigits base (bound + 1) 0 rest with
    | .ok value => .ok (-(value : Int))
    | .error .tooLarge => .error .tooSmall
    | .error fault => .error fault
  | text => (readUnsigned base bound text).map Int.ofNat

/-- Base selected by a mark, and what stands behind the mark. -/
def splitMark : List Char → Nat × List Char
  | '0' :: 'x' :: rest => (16, rest)
  | '0' :: 'X' :: rest => (16, rest)
  | text => (10, text)

def readWord (text : List Char) : Except NumeralFault UInt64 :=
  let (base, digits) := splitMark text
  (readUnsigned base UInt64.size (digits.filter (· ≠ '_'))).map UInt64.ofNat

end FabricQueue.Text
