/-! # How a transfer goes and ends

`TransferResult` is the terminal result (N_Result) of one message exchange; its errors are the ways
in which a transfer fails on the way.
-/
namespace CanTransport

inductive TransferError
  | timeoutA
  | timeoutBs
  | timeoutCr
  | wrongSequenceNumber
  | invalidFlowStatus
  | unexpectedPdu
  | waitFrameOverrun
  | bufferOverflow
  | internal
deriving DecidableEq

def TransferError.message : TransferError → String
  | timeoutA => "N_TIMEOUT_A: frame transmission not confirmed in time"
  | timeoutBs => "N_TIMEOUT_Bs: flow control not received in time"
  | timeoutCr => "N_TIMEOUT_Cr: consecutive frame not received in time"
  | wrongSequenceNumber => "N_WRONG_SN: unexpected sequence number"
  | invalidFlowStatus => "N_INVALID_FS: invalid flow status"
  | unexpectedPdu => "N_UNEXP_PDU: unexpected protocol data unit"
  | waitFrameOverrun => "N_WFT_OVRN: too many wait flow controls"
  | bufferOverflow => "N_BUFFER_OVFLW: message does not fit in the receive buffer"
  | internal => "N_ERROR: internal error"

abbrev TransferResult := Except TransferError Unit

instance : DecidableEq TransferResult
  | .ok _, .ok _ => isTrue rfl
  | .ok _, .error _ => isFalse nofun
  | .error _, .ok _ => isFalse nofun
  | .error e, .error e' => decidable_of_iff (e = e') ⟨congrArg _, Except.error.inj⟩

/-- Class of a message as the application names it. -/
inductive MessageType
  | diagnostics
  | unknown
deriving DecidableEq

/-- What the controller reports about a frame that it accepted. -/
inductive Ack
  | success
  | failure
deriving DecidableEq

/-- What one step of an endpoint brings about; a first frame announces the length of its message. -/
inductive StepOutcome
  | inProgress
  | firstFrame (length : Nat)
  | finished (result : TransferResult)
deriving DecidableEq

def StepOutcome.isFinished : StepOutcome → Bool
  | finished _ => true
  | _ => false

end CanTransport
