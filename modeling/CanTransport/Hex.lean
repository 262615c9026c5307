/-! # Fixed-width hexadecimal

Identifiers and bytes are always written with a fixed number of digits, most significant first.
-/
namespace CanTransport.Hex

/-- Letters used for the digits ten to fifteen. -/
inductive Alphabet
  | lower
  | upper
deriving DecidableEq

def digit (alphabet : Alphabet) (n : Nat) : Char :=
  if n < 10 then Char.ofNat (48 + n)
  else match alphabet with
    | .lower => Char.ofNat (87 + n)
    | .upper => Char.ofNat (55 + n)

/-- The last `width` digits of `n`. -/
def digits (alphabet : Alphabet) : Nat → Nat → List Char
  | 0, _ => []
  | width + 1, n => digits alphabet width (n / 16) ++ [digit alphabet (n % 16)]

def text (alphabet : Alphabet) (width n : Nat) : String :=
  String.ofList (digits alphabet width n)

/-- Two digits for each byte, without separators. -/
def ofBytes (bytes : List UInt8) : String :=
  String.ofList (bytes.flatMap fun b => digits .lower 2 b.toNat)

end CanTransport.Hex
