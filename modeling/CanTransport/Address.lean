import CanTransport.Hex

/-! # Normal fixed addressing

A conversation is named by one 32-bit word (N_AI). From the top octet down it holds the header
0x18, the target type, the target address and the source address. A word read from the bus is
kept whatever it holds; only `decode` judges it.
-/
namespace CanTransport

/-- One-to-one conversations may be segmented, one-to-many ones carry single frames only. -/
inductive TargetType
  | physical
  | functional
deriving DecidableEq

namespace TargetType

def code : TargetType → UInt8
  | physical => 0xDA
  | functional => 0xDB

def ofCode? (code : UInt8) : Option TargetType :=
  if code = 0xDA then some physical else if code = 0xDB then some functional else none

@[simp] theorem ofCode?_code (t : TargetType) : ofCode? t.code = some t := by
  cases t <;> rfl

end TargetType

structure Address where
  raw : UInt32
deriving DecidableEq

inductive AddressError
  | invalidHeader (raw : UInt32)
  | invalidTargetType (code : UInt8)
deriving DecidableEq

def AddressError.message : AddressError → String
  | invalidHeader raw => "Invalid N_AI header in 0x" ++ Hex.text .lower 8 raw.toNat
  | invalidTargetType code => "Invalid target address type 0x" ++ Hex.text .lower 2 code.toNat

namespace Address

def header : UInt8 := 0x18

/-- Octet `i` of the word, the lowest being octet zero. -/
def octet (a : Address) (i : Nat) : UInt8 := UInt8.ofNat (a.raw.toNat >>> (8 * i))

def ofParts (type : TargetType) (target source : UInt8) : Address :=
  ⟨UInt32.ofNat (header.toNat * 0x1000000 + type.code.toNat * 0x10000 + target.toNat *
    0x100 + source.toNat)⟩

def physical (target source : UInt8) : Address := ofParts .physical target source

def functional (target source : UInt8) : Address := ofParts .functional target source

def target (a : Address) : UInt8 := a.octet 1

def source (a : Address) : UInt8 := a.octet 0

/-- The target type octet alone decides; the header is not looked at. -/
def targetType? (a : Address) : Option TargetType := TargetType.ofCode? (a.octet 2)

def isFunctional (a : Address) : Bool := a.targetType? = some .functional

/-- Accepts a word with the fixed header and a known target type; a wrong header is reported first.
-/
def decode (raw : UInt32) : Except AddressError Address :=
  let a : Address := ⟨raw⟩
  if a.octet 3 ≠ header then .error (.invalidHeader raw)
  else match a.targetType? with
    | none => .error (.invalidTargetType (a.octet 2))
    | some _ => .ok a

def isValid (a : Address) : Bool := (decode a.raw).isOk

/-- The way back. Flow control always travels physically, whatever the conversation's own type. -/
def reversed (a : Address) : Address := physical a.source a.target

/-- The 29 bits that fit an extended identifier. -/
def extendedId (a : Address) : UInt32 := UInt32.ofNat (a.raw.toNat % 0x20000000)

def text (a : Address) : String := "0x" ++ Hex.text .upper 8 a.raw.toNat

end Address
end CanTransport
