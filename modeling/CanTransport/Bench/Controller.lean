import CanTransport.Frame
import CanTransport.Transfer

/-! # Simulated controllers

A controller keeps an inbox and a queue of outcomes, both first in first out. It can be taken
offline, made to refuse or fail writes, made to promise a frame that is not there, and made to
change frames on their way.
-/
namespace CanTransport.Bench

/-- What happens to a frame on its way; the last word on the number of copies counts. -/
inductive Disturbance
  | lose
  | duplicate
  | setByte (index : Nat) (value : UInt8)
  | setDlc (value : UInt8)
  | setId (id : Address)
deriving DecidableEq

/-- A frame under way and how many copies arrive. -/
structure Transit where
  frame : Frame
  copies : Nat := 1

def Disturbance.apply (t : Transit) : Disturbance → Transit
  | lose => { t with copies := 0 }
  | duplicate => { t with copies := 2 }
  | setByte index value => { t with frame := t.frame.setByte index value }
  | setDlc value => { t with frame := { t.frame with dlc := value } }
  | setId id => { t with frame := { t.frame with id } }

/-- Disturbs the accepted write of this number, counted from zero. -/
structure Tamper where
  write : Nat
  disturbance : Disturbance

structure Controller where
  inbox : List Frame := []
  outcomes : List Ack := []
  offline : Bool := false
  refuse : Bool := false
  /-- One more frame is announced than there are. -/
  ghost : Bool := false
  /-- Outcome reported by itself for every write that goes out. -/
  automatic : Option Ack := some .success
  /-- How many of the next writes fail. -/
  failNext : Nat := 0
  writes : Nat := 0
  tampers : List Tamper := []

/-- Changes to the behaviour of a controller; what is not named stays. -/
structure ControllerChange where
  offline : Option Bool := none
  refuse : Option Bool := none
  ghost : Option Bool := none
  automatic : Option (Option Ack) := none
  failNext : Option Nat := none
  tampers : List Tamper := []

/-- What becomes of a frame offered to a controller. -/
inductive Offer
  | refused
  | failed
  | sent (transit : Transit)

namespace Controller

def change (c : Controller) (d : ControllerChange) : Controller :=
  { c with
    offline := d.offline.getD c.offline
    refuse := d.refuse.getD c.refuse
    ghost := d.ghost.getD c.ghost
    automatic := d.automatic.getD c.automatic
    failNext := d.failNext.getD c.failNext
    tampers := c.tampers ++ d.tampers }

def isActive (c : Controller) : Bool := !c.offline

def available (c : Controller) : Nat := c.inbox.length + if c.ghost then 1 else 0

def receive (c : Controller) (frames : List Frame) : Controller :=
  { c with inbox := c.inbox ++ frames }

def report (c : Controller) (acks : List Ack) : Controller :=
  { c with outcomes := c.outcomes ++ acks }

def read (c : Controller) : Option Frame × Controller :=
  (c.inbox.head?, { c with inbox := c.inbox.tail })

def outcome (c : Controller) : Option Ack × Controller :=
  (c.outcomes.head?, { c with outcomes := c.outcomes.tail })

/-- The way of a frame with the given number. -/
def transit (c : Controller) (number : Nat) (frame : Frame) : Transit :=
  (c.tampers.filter (·.write = number)).foldl (fun t d => d.disturbance.apply t) { frame }

/-- A refused frame has no number. A failed one has a number and a failure for its outcome, and goes
nowhere. -/
def offer (c : Controller) (frame : Frame) : Offer × Controller :=
  if c.offline || c.refuse then (.refused, c)
  else
    let number := c.writes
    let c := { c with writes := number + 1 }
    match c.failNext with
    | n + 1 => (.failed, { c with failNext := n, outcomes := c.outcomes ++ [.failure] })
    | 0 => (.sent (c.transit number frame), c.report c.automatic.toList)

end Controller
end CanTransport.Bench
