import CanTransport.Budget
import CanTransport.Pdu
import CanTransport.Endpoint.Move
import CanTransport.Timing

/-! # Receivers

A receiver puts one message together. Its first frame decides whether the message is whole already,
or is to be asked for block by block.

    fresh → received                                  a single frame
    fresh → sendFlow → awaitFlowAck → awaitConsecutive
      awaitConsecutive → sendFlow | received
    any phase → failed

A frame that comes while the own flow control is unconfirmed is held back until the confirmation.
-/
namespace CanTransport

inductive ReceiverPhase
  | fresh
  | sendFlow
  | awaitFlowAck
  | awaitConsecutive
  | received
  | failed
deriving DecidableEq

structure Receiver where
  address : Address
  phase : ReceiverPhase := .fresh
  /-- Message bytes taken so far. -/
  taken : List UInt8 := []
  /-- Length announced by the first frame, reserved from the budget; zero before. -/
  expected : Nat := 0
  sequence : UInt8 := 1
  /-- Settings for the next flow control. -/
  blockSize : UInt8
  separation : SeparationTime
  /-- Settings of the last flow control sent, which govern the current block. -/
  sentBlockSize : UInt8
  sentSeparation : SeparationTime
  framesInBlock : UInt8 := 0
  held : Option Frame := none
  nAr : Stopwatch := .idle
  nBr : Stopwatch := .idle
  nCr : Stopwatch := .idle
  replyNoted : Bool := false
  result : Option TransferResult := none
deriving DecidableEq

namespace Receiver

/-- A new receiver and what is left of the budget; its message is paid for when its length is known.
-/
def create (address : Address) (blockSize : UInt8) (separation : SeparationTime) (budget : Budget) :
    Except BudgetError (Receiver × Budget) :=
  match budget.reserve labelBytes with
  | .error e => .error e
  | .ok rest =>
    .ok ({ address, blockSize, separation, sentBlockSize := blockSize, sentSeparation := separation }, rest)

/-- Bytes of the budget that the receiver holds. -/
def footprint (r : Receiver) : Nat := r.expected + labelBytes

def label (r : Receiver) : String := "Receiver " ++ r.address.text

/-- The whole message once it is there, nothing before. -/
def message (r : Receiver) : List UInt8 :=
  match r.result with
  | some (.ok _) => r.taken.take r.expected
  | _ => []

/-- Consecutive frames are waited for, also while the own flow control is unconfirmed. -/
def isAwaiting (r : Receiver) : Bool :=
  match r.phase with
  | .awaitConsecutive | .awaitFlowAck => true
  | _ => false

def setBlockSize (r : Receiver) (blockSize : UInt8) : Receiver := { r with blockSize }

def setSeparation (r : Receiver) (separation : SeparationTime) : Receiver := { r with separation }

/-- Every way to the end: all watches stop, a held frame is let go and the result stays. -/
def finish (r : Receiver) (now : Micros) (result : TransferResult) : Receiver :=
  { r with
    nAr := r.nAr.stop now
    nBr := r.nBr.stop now
    nCr := r.nCr.stop now
    held := none
    phase := match result with
      | .ok _ => .received
      | .error _ => .failed
    result := some result }

/-- The hard limit that is past, if one is. -/
def expired? (r : Receiver) (now : Micros) : Option TransferError :=
  if r.nAr.exceeded now Timing.confirmLimit then some .timeoutA
  else if r.nCr.exceeded now Timing.consecutiveLimit then some .timeoutCr
  else none

/-- Passing the soft limit is noted once and changes nothing else. -/
def noteReply (r : Receiver) (now : Micros) : Receiver :=
  { r with replyNoted := r.replyNoted || r.nBr.exceeded now Timing.replySoftLimit }

/-- The next thing to do is flow control. -/
def owe (r : Receiver) (now : Micros) : Receiver :=
  { r with nBr := .start now, replyNoted := false, phase := .sendFlow }

/-- Takes the bytes of a consecutive frame, or ends the reception. -/
def consume (r : Receiver) (now : Micros) (frame : Frame) : Receiver :=
  if frame.pduType? ≠ some .consecutiveFrame then r.finish now (.error .unexpectedPdu)
  else if lowNibble (frame.byte 0) ≠ r.sequence then r.finish now (.error .wrongSequenceNumber)
  else
    -- what goes beyond the announced length is padding
    let r := { r with
      taken := r.taken ++ (frame.payload.drop 1).take (r.expected - r.taken.length)
      sequence := Pdu.nextSequence r.sequence
      framesInBlock := r.framesInBlock + 1 }
    if r.expected ≤ r.taken.length then r.finish now (.ok ())
    else if r.sentBlockSize ≠ 0 ∧ r.sentBlockSize ≤ r.framesInBlock then
      { r with nCr := r.nCr.stop now }.owe now
    else { r with nCr := .start now }

/-- Where a receiver stands, as the outcome of a step. -/
def outcome (r : Receiver) : StepOutcome :=
  match r.result with
  | some result => .finished result
  | none => .inProgress

def settle (r : Receiver) : Move Receiver := .rest r r.outcome

def fail (r : Receiver) (now : Micros) (error : TransferError) : Move Receiver :=
  (r.finish now (.error error)).settle

/-- A first frame that the budget does not hold is answered with an overflow, sent or not. -/
def reject (r : Receiver) (now : Micros) : Move Receiver :=
  .write (Pdu.flowControl r.address.reversed .overflow 0 .zero) fun _ _ =>
    let r := r.finish now (.error .bufferOverflow)
    (r, r.outcome)

def takeSingle (r : Receiver) (now : Micros) (frame : Frame) (budget : Budget) :
    Move Receiver × Budget :=
  let length := (lowNibble (frame.byte 0)).toNat
  if Pdu.singleLimit < length ∨
    frame.payload.length < length + 1 then (r.fail now .unexpectedPdu, budget)
  else match budget.reserve length with
    | .error _ => (r.fail now .bufferOverflow, budget)
    | .ok rest =>
      let r := { r with expected := length, taken := (frame.payload.drop 1).take length }
      ((r.finish now (.ok ())).settle, rest)

def takeFirst (r : Receiver) (now : Micros) (frame : Frame) (budget : Budget) :
    Move Receiver × Budget :=
  if r.address.isFunctional ∨ frame.dlc ≠ 8 then (r.fail now .unexpectedPdu, budget)
  else match Pdu.announced? frame.payload with
    | none => (r.fail now .unexpectedPdu, budget)
    | some (length, offset) =>
      if length ≤ Pdu.singleLimit then (r.fail now .unexpectedPdu, budget)
      else match budget.reserve length with
        | .error _ => (r.reject now, budget)
        | .ok rest =>
          let r := { r with expected := length, taken := (frame.payload.drop offset).take length, sequence := 1 }
          (.rest (r.owe now) (.firstFrame length), rest)

/-- Opens the reception with its first frame. -/
def openWith (r : Receiver) (now : Micros) (frame : Frame) (budget : Budget) :
    Move Receiver × Budget :=
  match frame.pduType? with
  | some .singleFrame => r.takeSingle now frame budget
  | some .firstFrame => r.takeFirst now frame budget
  | _ => (r.fail now .unexpectedPdu, budget)

/-- Offers flow control under N_Ar, which runs from the first attempt. -/
def sendFlow (r : Receiver) (now : Micros) : Move Receiver :=
  let r := { r with nBr := r.nBr.stop now, nAr := r.nAr.ensure now }
  .write (Pdu.flowControl r.address.reversed .continueToSend r.blockSize r.separation)
  fun accepted _ =>
    (if accepted then
      { r with
        sentBlockSize := r.blockSize
        sentSeparation := r.separation
        framesInBlock := 0
        phase := .awaitFlowAck }
    else r, .inProgress)

/-- Keeps the first frame that comes too early; later ones are lost. -/
def hold (r : Receiver) (frame : Frame) : Receiver := { r with held := r.held.or (some frame) }

/-- What a phase does with the frame that came, if one came. -/
def act (r : Receiver) (now : Micros) (frame : Option Frame) (budget : Budget) :
    Move Receiver × Budget :=
  match r.phase, frame with
  | .fresh, some frame => r.openWith now frame budget
  | .fresh, none => (r.fail now .internal, budget)
  | .sendFlow, _ => (r.sendFlow now, budget)
  | .awaitFlowAck, some frame => (.rest (r.hold frame) .inProgress, budget)
  | .awaitConsecutive, some frame => ((r.consume now frame).settle, budget)
  | .received, _ | .failed, _ => (.rest r (.finished (r.result.getD (.error .internal))), budget)
  | _, none => (.rest r .inProgress, budget)

/-- A latched result answers every later step; an expired limit comes before anything else. -/
def step (r : Receiver) (now : Micros) (frame : Option Frame) (budget : Budget) :
    Move Receiver × Budget :=
  match r.result with
  | some result => (.rest r (.finished result), budget)
  | none => match r.expired? now with
    | some error => (r.fail now error, budget)
    | none => (r.noteReply now).act now frame budget

/-- The outcome of the frame written last. A confirmed flow control lets the held frame in; a
success that no phase waits for is ignored. -/
def onAck (r : Receiver) (now : Micros) (ack : Ack) : Receiver :=
  match r.phase, ack with
  | .received, _ | .failed, _ => r
  | .awaitFlowAck, .success =>
    let held := r.held
    let r := { r with
      nAr := r.nAr.stop now, nBr := .idle, nCr := .start now, phase := .awaitConsecutive, held :=
        none }
    match held with
    | some frame => r.consume now frame
    | none => r
  | _, .failure => r.finish now (.error .internal)
  | _, .success => r

end Receiver
end CanTransport
