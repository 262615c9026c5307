/-! # Memory budget

One signed 64-bit counter from which every endpoint draws the bytes that it holds. A withdrawal is
all or nothing; giving back saturates.
-/
namespace CanTransport

structure Budget where
  remaining : Int
deriving DecidableEq

inductive BudgetError
  | exhausted (requested : Nat) (available : Int)
deriving DecidableEq

def BudgetError.message : BudgetError → String
  | exhausted requested available =>
    "Memory budget exhausted -> requested: " ++ toString requested ++
      ", available: " ++ toString available

namespace Budget

/-- Largest value of the counter. -/
def top : Int := 0x7FFFFFFFFFFFFFFF

/-- Smallest value of the counter. -/
def bottom : Int := -0x8000000000000000

def saturate (n : Int) : Int := max bottom (min n top)

/-- Budget of `bytes`, capped at the largest value of the counter. -/
def ofBytes (bytes : Nat) : Budget := ⟨min bytes top⟩

def add (b : Budget) (bytes : Int) : Budget := ⟨saturate (b.remaining + bytes)⟩

def sub (b : Budget) (bytes : Int) : Budget := ⟨saturate (b.remaining - bytes)⟩

/-- Takes `bytes` unless less than nothing would remain, or more than the counter holds. A negative
amount is refused under the name of the largest 64-bit one. -/
def take (b : Budget) (bytes : Int) : Except BudgetError Budget :=
  let rest := b.remaining - bytes
  if 0 ≤ rest ∧ rest ≤ top then .ok ⟨rest⟩
  else .error (.exhausted (if bytes < 0 then 0xFFFFFFFFFFFFFFFF else bytes.toNat) b.remaining)

def reserve (b : Budget) (bytes : Nat) : Except BudgetError Budget :=
  if (bytes : Int) ≤ top then b.take bytes else .error (.exhausted bytes b.remaining)

/-- Gives reserved bytes back. -/
def release (b : Budget) (bytes : Nat) : Budget := b.add bytes

def text (b : Budget) : String :=
  "MemoryBudget \x7b remaining: " ++ toString b.remaining ++ " \x7d"

end Budget

/-- Bytes taken from a budget until they are given back. -/
structure Reservation where
  bytes : Nat
deriving DecidableEq

def Reservation.text (r : Reservation) (b : Budget) : String :=
  "Reservation \x7b budget: " ++ b.text ++ ", bytes: " ++ toString r.bytes ++ " \x7d"

end CanTransport
