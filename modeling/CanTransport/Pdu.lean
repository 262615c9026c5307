import CanTransport.Frame
import CanTransport.SeparationTime

/-! # Protocol data units

The high nibble of a frame's first byte names its kind.

* single frame `0L`: `L` bytes follow, at most seven;
* first frame `1L LL`: a 12-bit message length and six bytes of the message;
* first frame `10 00 XX XX XX XX`: a 32-bit length above 4095 and two bytes of the message;
* consecutive frame `2N`: sequence number modulo sixteen and up to seven bytes;
* flow control `3S BS ST`: status, block size and separation time.
-/
namespace CanTransport

inductive PduType
  | singleFrame
  | firstFrame
  | consecutiveFrame
  | flowControl
deriving DecidableEq

namespace PduType

def code : PduType → UInt8
  | singleFrame => 0x00
  | firstFrame => 0x10
  | consecutiveFrame => 0x20
  | flowControl => 0x30

def ofByte? (pci : UInt8) : Option PduType :=
  match pci.toNat / 16 with
  | 0 => some singleFrame
  | 1 => some firstFrame
  | 2 => some consecutiveFrame
  | 3 => some flowControl
  | _ => none

end PduType

def lowNibble (b : UInt8) : UInt8 := b % 16

/-- Kind of the unit in a frame, if its payload is not empty and its first byte names one. -/
def Frame.pduType? (f : Frame) : Option PduType := f.payload.head?.bind PduType.ofByte?

inductive FlowStatus
  | continueToSend
  | wait
  | overflow
deriving DecidableEq

namespace FlowStatus

def code : FlowStatus → UInt8
  | continueToSend => 0
  | wait => 1
  | overflow => 2

def ofCode? (code : UInt8) : Option FlowStatus :=
  match code.toNat with
  | 0 => some continueToSend
  | 1 => some wait
  | 2 => some overflow
  | _ => none

@[simp] theorem ofCode?_code (s : FlowStatus) : ofCode? s.code = some s := by
  cases s <;> rfl

end FlowStatus

namespace Pdu

/-- Longest message that one single frame carries. -/
def singleLimit : Nat := 7

/-- Longest message whose length fits twelve bits. -/
def shortLimit : Nat := 4095

def shortCarried : Nat := 6

def longCarried : Nat := 2

def chunkSize : Nat := 7

def flowControlDlc : UInt8 := 3

/-- Messages must be shorter than this for a first frame to announce them. -/
def lengthLimit : Nat := 0x100000000

def wordBytes (n : Nat) : List UInt8 :=
  [UInt8.ofNat (n / 0x1000000), UInt8.ofNat (n / 0x10000), UInt8.ofNat (n / 0x100), UInt8.ofNat n]

def wordValue (a b c d : UInt8) : Nat :=
  a.toNat * 0x1000000 + b.toNat * 0x10000 + c.toNat * 0x100 + d.toNat

def singleFrame? (id : Address) (payload : List UInt8) : Option Frame :=
  if payload.length ≤ singleLimit then
    Frame.ofPayload? id ((PduType.singleFrame.code + UInt8.ofNat payload.length) :: payload)
  else none

/-- First frame of a segmented message, and how many of its bytes the frame carries. -/
def firstFrame? (id : Address) (message : List UInt8) : Option (Frame × Nat) :=
  let total := message.length
  if total ≤ singleLimit then none
  else if total ≤ shortLimit then
    (Frame.ofPayload? id ((PduType.firstFrame.code + UInt8.ofNat (total / 256)) ::
      UInt8.ofNat total ::
      message.take shortCarried)).map (·, shortCarried)
  else if total < lengthLimit then
    (Frame.ofPayload? id (PduType.firstFrame.code :: 0 :: wordBytes total ++
      message.take longCarried)).map (·, longCarried)
  else none

def consecutiveFrame? (id : Address) (sequence : UInt8) (chunk : List UInt8) : Option Frame :=
  if chunk.length ≤ chunkSize then
    Frame.ofPayload? id ((PduType.consecutiveFrame.code + lowNibble sequence) :: chunk)
  else none

def flowControl (id : Address) (status : FlowStatus) (blockSize : UInt8)
    (separation : SeparationTime) :
    Frame where
  id
  data := padded [PduType.flowControl.code + status.code, blockSize, separation.toByte]
  dlc := flowControlDlc
  extended := true
  remote := false

/-- Message length announced by a first frame, and where the message bytes begin in its payload. A
zero 12-bit length announces that the 32-bit one follows. -/
def announced? : List UInt8 → Option (Nat × Nat)
  | a :: b :: rest =>
    let short := (lowNibble a).toNat * 256 + b.toNat
    if short ≠ 0 then some (short, 2)
    else match rest with
      | c :: d :: e :: f :: _ => some (wordValue c d e f, 6)
      | _ => none
  | _ => none

/-- Sequence numbers run 1, 2, …, 15, 0, 1, …. -/
def nextSequence (sequence : UInt8) : UInt8 := lowNibble (sequence + 1)

end Pdu
end CanTransport
