import CanTransport.Budget
import CanTransport.Pdu
import CanTransport.Refusal
import CanTransport.Endpoint.Move
import CanTransport.Timing

/-! # Senders

A sender takes one message through its frames. After each frame it waits for the controller's
confirmation, after the first frame and after each block for flow control.

    sendSingle → awaitSingleAck → sent
    sendFirst → awaitFirstAck → awaitFirstFlow → sendConsecutive → awaitConsecutiveAck
      awaitConsecutiveAck → sendConsecutive | awaitFlow | sent
      awaitFirstFlow, awaitFlow → awaitFlow on a wait, sendConsecutive on a go
    any phase → failed
-/
namespace CanTransport

inductive SenderPhase
  | sendSingle
  | awaitSingleAck
  | sendFirst
  | awaitFirstAck
  | awaitFirstFlow
  | awaitFlow
  | sendConsecutive
  | awaitConsecutiveAck
  | sent
  | failed
deriving DecidableEq

structure Sender where
  address : Address
  kind : MessageType
  message : List UInt8
  waitLimit : Option UInt8
  phase : SenderPhase
  /-- Bytes of the message that the controller has accepted. -/
  offset : Nat := 0
  sequence : UInt8 := 1
  blockSize : UInt8 := 0
  separation : SeparationTime := .zero
  framesInBlock : UInt8 := 0
  waits : UInt8 := 0
  lastFrameAt : Option Micros := none
  nAs : Stopwatch := .idle
  nBs : Stopwatch := .idle
  nCs : Stopwatch := .idle
  paceNoted : Bool := false
  result : Option TransferResult := none
deriving DecidableEq

namespace Sender

/-- A new sender and what is left of the budget. A functional message that needs segmentation is
refused first, then one too long to announce, then one that the budget does not hold. -/
def create (address : Address) (message : List UInt8) (kind : MessageType)
    (waitLimit : Option UInt8) (budget : Budget) : Except RequestError (Sender × Budget) :=
  let length := message.length
  if address.isFunctional ∧ Pdu.singleLimit < length then .error (.functionalSegmentation length)
  else if Pdu.lengthLimit ≤ length then .error (.messageTooLong length)
  else match budget.reserve (length + labelBytes) with
    | .error _ => .error .outOfMemory
    | .ok rest =>
      let phase := if length ≤ Pdu.singleLimit then .sendSingle else .sendFirst
      .ok ({ address, kind, message, waitLimit, phase }, rest)

/-- Bytes of the budget that the sender holds. -/
def footprint (s : Sender) : Nat := s.message.length + labelBytes

def label (s : Sender) : String := "Sender " ++ s.address.text

/-- Flow control is all that a sender waits for. -/
def isAwaiting (s : Sender) : Bool :=
  match s.phase with
  | .awaitFirstFlow | .awaitFlow => true
  | _ => false

/-- Earliest instant for the next consecutive frame, when a pause is to be kept. -/
def dueAt (s : Sender) : Option Micros :=
  match s.phase, s.lastFrameAt with
  | .sendConsecutive, some last => some (last + s.separation.micros)
  | _, _ => none

/-- Every way to the end: all watches stop and the result stays. -/
def finish (s : Sender) (now : Micros) (result : TransferResult) : Sender :=
  { s with
    nAs := s.nAs.stop now
    nBs := s.nBs.stop now
    nCs := s.nCs.stop now
    phase := match result with
      | .ok _ => .sent
      | .error _ => .failed
    result := some result }

def fail (s : Sender) (now : Micros) (error : TransferError) : Move Sender :=
  .rest (s.finish now (.error error)) (.finished (.error error))

/-- The hard limit that is past, if one is. -/
def expired? (s : Sender) (now : Micros) : Option TransferError :=
  if s.nAs.exceeded now Timing.confirmLimit then some .timeoutA
  else if s.nBs.exceeded now Timing.flowControlLimit then some .timeoutBs
  else none

/-- Passing the soft limit is noted once and changes nothing else. -/
def notePace (s : Sender) (now : Micros) : Sender :=
  { s with paceNoted := s.paceNoted || s.nCs.exceeded now Timing.paceSoftLimit }

def startPace (s : Sender) (now : Micros) : Sender :=
  { s with nCs := .start now, paceNoted := false }

/-- Offers a frame under N_As, which runs from the first attempt. A refused frame is offered again
at the next step. -/
def transmit (s : Sender) (now : Micros) (frame : Frame) (accepted : Sender → Micros → Sender) :
    Move Sender :=
  let s := { s with nAs := s.nAs.ensure now }
  .write frame fun ok after => (if ok then accepted s after else s, .inProgress)

def sendSingle (s : Sender) (now : Micros) : Move Sender :=
  match Pdu.singleFrame? s.address s.message with
  | none => s.fail now .internal
  | some frame => s.transmit now frame fun s _ =>
    { s with offset := s.message.length, phase := .awaitSingleAck }

def sendFirst (s : Sender) (now : Micros) : Move Sender :=
  match Pdu.firstFrame? s.address s.message with
  | none => s.fail now .internal
  | some (frame, carried) => s.transmit now frame fun s _ =>
    { s with offset := carried, sequence := 1, phase := .awaitFirstAck }

/-- Bytes for the next consecutive frame. -/
def chunk (s : Sender) : List UInt8 := (s.message.drop s.offset).take Pdu.chunkSize

def sendConsecutive (s : Sender) (now : Micros) : Move Sender :=
  -- asked before its time, it keeps quiet and is asked again
  if s.dueAt.any (now < ·) then .rest s .inProgress
  else match Pdu.consecutiveFrame? s.address s.sequence s.chunk with
    | none => s.fail now .internal
    | some frame => s.transmit now frame fun s after =>
      { s with
        nCs := s.nCs.stop after
        offset := s.offset + s.chunk.length
        sequence := Pdu.nextSequence s.sequence
        framesInBlock := s.framesInBlock + 1
        lastFrameAt := some after
        phase := .awaitConsecutiveAck }

/-- The peer lets the next block go, at the pace that it asks for. -/
def resume (s : Sender) (now : Micros) (blockSize : UInt8) (separation : SeparationTime) : Sender :=
  startPace
    { s with
      nBs := s.nBs.stop now
      blockSize, separation
      framesInBlock := 0
      waits := 0
      phase := .sendConsecutive }
    now

/-- Waits counted so far, kept within a byte. -/
def countWait (waits : UInt8) : UInt8 := if waits = 255 then 255 else waits + 1

def postpone (s : Sender) (now : Micros) : Move Sender :=
  let s := { s with waits := countWait s.waits }
  if s.waitLimit.any (· < s.waits) then s.fail now .waitFrameOverrun
  else .rest { s with nBs := .start now, phase := .awaitFlow } .inProgress

/-- Whether a frame can be flow control at all: physical, three bytes, and of that kind. -/
def isFlowControl (frame : Frame) : Bool :=
  frame.id.targetType? = some .physical ∧ frame.dlc = Pdu.flowControlDlc ∧
    frame.pduType? = some .flowControl

/-- An overflow is only taken on the first flow control of a message. -/
def takeFlowControl (s : Sender) (now : Micros) (frame : Frame) : Move Sender :=
  if isFlowControl frame then
    match FlowStatus.ofCode? (lowNibble (frame.byte 0)) with
    | some .continueToSend =>
      .rest (s.resume now (frame.byte 1) (.ofByte (frame.byte 2))) .inProgress
    | some .wait => s.postpone now
    | some .overflow =>
      s.fail now (if s.phase = .awaitFirstFlow then .bufferOverflow else .invalidFlowStatus)
    | none => s.fail now .invalidFlowStatus
  else s.fail now .unexpectedPdu

/-- What a phase does with the frame that came, if one came. -/
def act (s : Sender) (now : Micros) (frame : Option Frame) : Move Sender :=
  match s.phase, frame with
  | .sendSingle, _ => s.sendSingle now
  | .sendFirst, _ => s.sendFirst now
  | .sendConsecutive, _ => s.sendConsecutive now
  | .awaitFirstFlow, some frame | .awaitFlow, some frame => s.takeFlowControl now frame
  | .sent, _ | .failed, _ => .rest s (.finished (s.result.getD (.error .internal)))
  | _, _ => .rest s .inProgress

/-- A latched result answers every later step; an expired limit comes before anything else. -/
def step (s : Sender) (now : Micros) (frame : Option Frame) : Move Sender :=
  match s.result with
  | some result => .rest s (.finished result)
  | none => match s.expired? now with
    | some error => s.fail now error
    | none => (s.notePace now).act now frame

/-- Whether flow control is due before the next consecutive frame. -/
def blockComplete (s : Sender) : Bool := s.blockSize ≠ 0 ∧ s.blockSize ≤ s.framesInBlock

/-- The outcome of the frame written last. One that no phase waits for ends the transfer. -/
def onAck (s : Sender) (now : Micros) (ack : Ack) : Sender :=
  match s.phase, ack with
  | .sent, _ | .failed, _ => s
  | .awaitSingleAck, .success =>
    finish { s with nAs := s.nAs.stop now, nCs := .idle } now (.ok ())
  | .awaitFirstAck, .success =>
    { s with nAs := s.nAs.stop now, nCs := .idle, nBs := .start now, phase := .awaitFirstFlow }
  | .awaitConsecutiveAck, .success =>
    let s := { s with nAs := s.nAs.stop now }
    if s.message.length ≤ s.offset then s.finish now (.ok ())
    else if s.blockComplete then { s with nBs := .start now, phase := .awaitFlow }
    else { s.startPace now with phase := .sendConsecutive }
  | _, _ => s.finish now (.error .internal)

end Sender
end CanTransport
