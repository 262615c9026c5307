import CanTransport.Refusal
import CanTransport.Timing

/-! # Settings of a station

`Config` is what a station is built from, `Settings` the part that may be changed while it runs.
-/
namespace CanTransport

/-- Group addresses, ascending and each once. -/
abbrev Groups := List UInt8

namespace Groups

def insert (group : UInt8) : Groups → Groups
  | [] => [group]
  | g :: rest =>
    if group < g then group :: g :: rest
    else if group = g then g :: rest
    else g :: insert group rest

def ofList (groups : List UInt8) : Groups := groups.foldl (fun gs g => insert g gs) []

theorem mem_insert {x group : UInt8} {gs : Groups} : x ∈ gs.insert group ↔ x = group ∨ x ∈ gs := by
  induction gs with
  | nil => simp [insert]
  | cons g rest ih =>
    rw [insert]
    split
    · simp
    · split
      · next h => simp [h]
      · rw [List.mem_cons, ih, List.mem_cons]
        exact or_left_comm

end Groups

structure Settings where
  source : UInt8
  functional : Groups := []
  blockSize : UInt8 := 0
  separation : SeparationTime := .zero
deriving DecidableEq

structure Config extends Settings where
  memoryBudget : Nat := 64 * 1024
  runPeriod : Micros := Timing.runPeriod
  ackPeriod : Micros := Timing.ackPeriod
  lockTimeout : Micros := Timing.lockTimeout
  waitLimit : Option UInt8 := none
deriving DecidableEq

/-- Only the separation time can be out of range. -/
def Config.validate (c : Config) : Except ConfigError Unit := c.separation.validate

end CanTransport
