/-! # Separation time

The least pause between two consecutive frames (STmin), asked for in one byte: whole milliseconds up
to 127, or one to nine hundreds of microseconds. Reserved codes are read as the longest pause.
-/
namespace CanTransport

inductive SeparationUnit
  | millis
  | hundredMicros
deriving DecidableEq

def SeparationUnit.text : SeparationUnit → String
  | millis => "Millis"
  | hundredMicros => "HundredMicros"

/-- A value and its unit, not necessarily one that the byte can carry. -/
structure SeparationTime where
  value : UInt8
  unit : SeparationUnit
deriving DecidableEq

namespace SeparationTime

def zero : SeparationTime := ⟨0, .millis⟩

def longest : SeparationTime := ⟨127, .millis⟩

def isValid (s : SeparationTime) : Bool :=
  match s.unit with
  | .millis => decide (s.value ≤ 127)
  | .hundredMicros => decide (1 ≤ s.value ∧ s.value ≤ 9)

def ofByte (byte : UInt8) : SeparationTime :=
  if byte ≤ 0x7F then ⟨byte, .millis⟩
  else if 0xF1 ≤ byte ∧ byte ≤ 0xF9 then ⟨byte - 0xF0, .hundredMicros⟩
  else longest

def toByte (s : SeparationTime) : UInt8 :=
  if s.isValid then
    match s.unit with
    | .millis => s.value
    | .hundredMicros => 0xF0 + s.value
  else longest.value

/-- Length of the pause in microseconds, of a value that the byte cannot carry too. -/
def micros (s : SeparationTime) : Nat :=
  match s.unit with
  | .millis => s.value.toNat * 1000
  | .hundredMicros => s.value.toNat * 100

theorem isValid_ofByte (b : UInt8) : (ofByte b).isValid = true := by
  unfold ofByte
  split
  · simpa [isValid]
  · split
    · next h =>
      have h1 := UInt8.le_iff_toNat_le.mp h.1
      have h2 := UInt8.le_iff_toNat_le.mp h.2
      simp only [isValid, decide_eq_true_eq]
      refine ⟨UInt8.le_iff_toNat_le.mpr ?_, UInt8.le_iff_toNat_le.mpr ?_⟩ <;>
        simp [UInt8.toNat_sub] at * <;> omega
    · rfl

theorem ofByte_toByte {s : SeparationTime} (h : s.isValid = true) : ofByte s.toByte = s := by
  obtain ⟨value, unit⟩ := s
  cases unit with
  | millis =>
    simp only [isValid, decide_eq_true_eq] at h
    simp [toByte, isValid, ofByte, h]
  | hundredMicros =>
    have bounds : 1 ≤ value.toNat ∧ value.toNat ≤ 9 := by
      have := of_decide_eq_true h
      exact ⟨UInt8.le_iff_toNat_le.mp this.1, UInt8.le_iff_toNat_le.mp this.2⟩
    have code : (0xF0 + value).toNat = 0xF0 + value.toNat := by
      simp [UInt8.toNat_add]
      omega
    have byte : toByte ⟨value, .hundredMicros⟩ = 0xF0 + value := by simp [toByte, h]
    have above : ¬ 0xF0 + value ≤ 0x7F := by
      rw [UInt8.le_iff_toNat_le, code]
      simp
      omega
    have within : 0xF1 ≤ 0xF0 + value ∧ 0xF0 + value ≤ 0xF9 := by
      rw [UInt8.le_iff_toNat_le, UInt8.le_iff_toNat_le, code]
      simp
      omega
    rw [byte, ofByte, if_neg above, if_pos within, UInt8.add_comm, UInt8.add_sub_cancel]

end SeparationTime
end CanTransport
