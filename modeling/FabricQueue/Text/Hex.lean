set_option autoImplicit false

namespace FabricQueue.Text

/-- Digits of `n` in base 16, most significant first. -/
def hexDigits (n : Nat) : List Char :=
  Nat.toDigits 16 n

/-- Zeros in front of `digits` up to `width` characters. -/
def zeroPadded (width : Nat) (digits : List Char) : List Char :=
  List.replicate (width - digits.length) '0' ++ digits

def hex (n : Nat) : String :=
  "0x" ++ String.ofList (hexDigits n)

def hexPadded (width n : Nat) : String :=
  "0x" ++ String.ofList (zeroPadded width (hexDigits n))

def hexUpper (width n : Nat) : String :=
  String.ofList ((zeroPadded width (hexDigits n)).map Char.toUpper)

end FabricQueue.Text
