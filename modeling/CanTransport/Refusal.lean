import CanTransport.SeparationTime

/-! # Refusals

Why a call is turned down at once, before any transfer starts.
-/
namespace CanTransport

/-- A lock was not had before its deadline. -/
inductive LockTimeout
  | expired
deriving DecidableEq

def LockTimeout.message : LockTimeout → String
  | expired => "Lock acquisition timed out"

inductive RequestError
  | outOfMemory
  | functionalSegmentation (length : Nat)
  | messageTooLong (length : Nat)
  | lock (cause : LockTimeout)
deriving DecidableEq

def RequestError.message : RequestError → String
  | outOfMemory => "Insufficient memory budget for the message"
  | functionalSegmentation length =>
    "Functional addressing cannot carry " ++ toString length ++ " bytes (segmentation forbidden)"
  | messageTooLong length => "Message too long: " ++ toString length ++ " bytes"
  | lock cause => cause.message

inductive ConfigError
  | invalidSeparation (value : SeparationTime)
  | lock (cause : LockTimeout)
deriving DecidableEq

def ConfigError.message : ConfigError → String
  | invalidSeparation s => "Invalid STmin " ++ toString s.value ++ " (" ++ s.unit.text ++ ")"
  | lock cause => cause.message

def SeparationTime.validate (s : SeparationTime) : Except ConfigError Unit :=
  if s.isValid then .ok () else .error (.invalidSeparation s)

end CanTransport
