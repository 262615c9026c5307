import CanTransport.Address

/-! # Classic frames

A frame has eight data octets of which the first `dlc` count, and an identifier that is a whole
address word. What the controller shows of it is narrower: an 11-bit or 29-bit identifier, and no
data for a remote request.
-/
namespace CanTransport

/-- The first eight bytes, filled up with zeros. -/
def padded (bytes : List UInt8) : List UInt8 := (bytes ++ List.replicate 8 0).take 8

@[simp] theorem length_padded (bytes : List UInt8) : (padded bytes).length = 8 := by
  simp [padded]

structure Frame where
  id : Address
  data : List UInt8
  dlc : UInt8
  extended : Bool
  remote : Bool
  length_data : data.length = 8 := by simp
deriving DecidableEq

/-- Identifier as a controller sees it. -/
inductive BusId
  | standard (raw : Nat)
  | extended (raw : Nat)
deriving DecidableEq

def BusId.raw : BusId → Nat
  | standard raw => raw
  | extended raw => raw

def BusId.isExtended : BusId → Bool
  | standard _ => false
  | extended _ => true

def Address.busId (a : Address) : BusId := .extended a.extendedId.toNat

namespace Frame

/-- Extended data frame carrying `bytes`, of which there are at most eight. -/
def ofPayload? (id : Address) (bytes : List UInt8) : Option Frame :=
  if bytes.length ≤ 8 then
    some { id, data := padded bytes, dlc := UInt8.ofNat bytes.length, extended := true, remote := false }
  else none

/-- Data frame under a controller's identifier. -/
def ofBusId? (id : BusId) (bytes : List UInt8) : Option Frame :=
  (ofPayload? ⟨UInt32.ofNat id.raw⟩ bytes).map fun f => { f with extended := id.isExtended }

/-- Remote request for `dlc` bytes. -/
def remoteRequest? (id : BusId) (dlc : Nat) : Option Frame :=
  if dlc ≤ 8 then
    (ofBusId? id []).map fun f => { f with dlc := UInt8.ofNat dlc, remote := true }
  else none

/-- The bytes that count; a length code above eight counts as eight. -/
def payload (f : Frame) : List UInt8 := f.data.take f.dlc.toNat

def byte (f : Frame) (i : Nat) : UInt8 := f.data.getD i 0

/-- Whether the transport layer looks at the frame at all. -/
def isRelevant (f : Frame) : Bool :=
  f.extended && !f.remote && decide (1 ≤ f.dlc ∧ f.dlc ≤ 8)

def busId (f : Frame) : BusId :=
  if f.extended then f.id.busId else .standard (f.id.raw.toNat % 0x800)

/-- Data that a controller shows: none for a remote request. -/
def busData (f : Frame) : List UInt8 := if f.remote then [] else f.payload

def setByte (f : Frame) (i : Nat) (value : UInt8) : Frame :=
  { f with data := f.data.set i value, length_data := by simp [f.length_data] }

def text (f : Frame) : String := f.id.text ++ "#" ++ Hex.ofBytes f.payload

theorem length_payload (f : Frame) : f.payload.length = min f.dlc.toNat 8 := by
  simp [payload, f.length_data]

end Frame
end CanTransport
