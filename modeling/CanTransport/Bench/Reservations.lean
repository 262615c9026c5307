import CanTransport.Budget

/-! # Reservations from one budget

A budget and the reservations taken from it, each kept in a slot until it is dropped.
-/
namespace CanTransport.Bench

inductive BudgetStep
  | get
  | set (bytes : Int)
  | add (bytes : Int)
  | sub (bytes : Int)
  | take (bytes : Int)
  | reserve (bytes : Nat)
  | drop (slot : Nat)
  | display
  | displaySlot (slot : Nat)

inductive BudgetReply
  | nothing
  | value (v : Int)
  | taken (r : Except BudgetError Int)
  | reserved (r : Except BudgetError (Nat × Reservation))
  | text (t : Option String)

structure Reservations where
  budget : Budget
  /-- Slots of dropped reservations stay empty. -/
  slots : List (Option Reservation) := []

namespace Reservations

def slot? (r : Reservations) (i : Nat) : Option Reservation := (r.slots[i]?).join

def drop (r : Reservations) (i : Nat) : Reservations :=
  match r.slot? i with
  | none => r
  | some held => { budget := r.budget.release held.bytes, slots := r.slots.set i none }

def perform (r : Reservations) : BudgetStep → BudgetReply × Reservations
  | .get => (.value r.budget.remaining, r)
  | .set bytes => (.nothing, { r with budget := ⟨bytes⟩ })
  | .add bytes =>
    let budget := r.budget.add bytes
    (.value budget.remaining, { r with budget })
  | .sub bytes =>
    let budget := r.budget.sub bytes
    (.value budget.remaining, { r with budget })
  | .take bytes =>
    match r.budget.take bytes with
    | .ok budget => (.taken (.ok budget.remaining), { r with budget })
    | .error e => (.taken (.error e), r)
  | .reserve bytes =>
    match r.budget.reserve bytes with
    | .ok budget =>
      (.reserved (.ok (r.slots.length, ⟨bytes⟩)), { budget, slots := r.slots ++ [some ⟨bytes⟩] })
    | .error e => (.reserved (.error e), r)
  | .drop i => (.nothing, r.drop i)
  | .display => (.text (some r.budget.text), r)
  | .displaySlot i => (.text ((r.slot? i).map (·.text r.budget)), r)

/-- Each step's answer, and what remains after it. -/
def run : List BudgetStep → Reservations → List (BudgetReply × Int)
  | [], _ => []
  | step :: rest, r =>
    let (reply, r) := r.perform step
    (reply, r.budget.remaining) :: run rest r

end Reservations
end CanTransport.Bench
