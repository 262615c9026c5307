import CanTransport.Proofs.Moves

/-! # The buffer of a receiver

The bytes of a message come into a buffer that is as long as the message from the first frame on, at
an offset that moves on. Every index, every slice and every difference is checked here, and one that
is out of range leaves nothing. The buffer holds what the receiver has taken, and no check ever
fails.
-/
namespace CanTransport

def slice? (bytes : List UInt8) (start stop : Nat) : Option (List UInt8) :=
  if start ≤ stop ∧ stop ≤ bytes.length then some ((bytes.drop start).take (stop - start)) else none

def minus? (a b : Nat) : Option Nat := if b ≤ a then some (a - b) else none

def overwrite? (bytes : List UInt8) (start stop : Nat) (chunk : List UInt8) : Option (List UInt8) :=
  if start ≤ stop ∧ stop ≤ bytes.length ∧ chunk.length = stop - start then
    some (bytes.take start ++ chunk ++ bytes.drop stop)
  else none

variable {bytes chunk : List UInt8} {start n : Nat}

theorem slice?_add (h : start + n ≤ bytes.length) :
    slice? bytes start (start + n) = some ((bytes.drop start).take n) := by
  rw [slice?, if_pos ⟨Nat.le_add_right _ _, h⟩, Nat.add_sub_cancel_left]

theorem slice?_zero (h : n ≤ bytes.length) : slice? bytes 0 n = some (bytes.take n) := by
  rw [slice?, if_pos ⟨Nat.zero_le _, h⟩]
  rfl

theorem minus?_eq {a b : Nat} (h : b ≤ a) : minus? a b = some (a - b) := if_pos h

theorem overwrite?_eq (h : start + chunk.length ≤ bytes.length) :
    overwrite? bytes start (start + chunk.length) chunk =
      some (bytes.take start ++ chunk ++ bytes.drop (start + chunk.length)) :=
  if_pos ⟨Nat.le_add_right _ _, h, (Nat.add_sub_cancel_left _ _).symm⟩

namespace Frame
variable {f : Frame}

def payload? (f : Frame) : Option (List UInt8) := slice? f.data 0 (min f.dlc.toNat 8)

theorem payload?_eq (f : Frame) : f.payload? = some f.payload := by
  have hlength := f.length_data
  rw [payload?, slice?_zero (by omega), payload, ← hlength, ← List.take_eq_take_min]

theorem getElem?_zero_payload {kind : PduType} (h : f.pduType? = some kind) :
    f.payload[0]? = some (f.byte 0) := by
  cases hp : f.payload with
  | nil => simp [pduType?, hp] at h
  | cons b rest => rw [byte_zero_of_payload hp, List.getElem?_cons_zero]

theorem length_payload_pos {kind : PduType} (h : f.pduType? = some kind) :
    1 ≤ f.payload.length := by
  obtain ⟨hlt, -⟩ := List.getElem?_eq_some_iff.mp (getElem?_zero_payload h)
  exact hlt

end Frame

def wordIn? (word : List UInt8) : Option Nat := do
  let c ← word[0]?
  let d ← word[1]?
  let e ← word[2]?
  let f ← word[3]?
  some (Pdu.wordValue c d e f)

/-- The length that a first frame announces, read byte by byte. -/
def announcedIn? (payload : List UInt8) : Option (Option (Nat × Nat)) :=
  if payload.length < 2 then some none
  else do
    let a ← payload[0]?
    let b ← payload[1]?
    let short := (lowNibble a).toNat * 256 + b.toNat
    if short ≠ 0 then some (some (short, 2))
    else match slice? payload 2 6 with
      | none => some none
      | some word => (wordIn? word).map fun length => some (length, 6)

theorem announcedIn?_eq :
    ∀ payload : List UInt8, announcedIn? payload = some (Pdu.announced? payload)
  | [] | [_] => rfl
  | a :: b :: rest => by
    have hlength : ¬(a :: b :: rest).length < 2 := by simp
    unfold announcedIn? Pdu.announced?
    rw [if_neg hlength]
    simp only [List.getElem?_cons_zero, List.getElem?_cons_succ, Option.bind_eq_bind,
      Option.bind_some]
    split
    · rfl
    · match rest with
      | [] | [_] | [_, _] | [_, _, _] => rfl
      | c :: d :: e :: f :: rest => simp [slice?, wordIn?]

/-- The first bytes of a message come after the length, within the payload that announces it. -/
theorem Pdu.offset_of_announced? {payload : List UInt8} {length offset : Nat}
    (h : announced? payload = some (length, offset)) : 2 ≤ offset ∧ offset ≤ payload.length := by
  unfold announced? at h
  split at h
  · dsimp only at h
    split at h
    · cases h
      simp
    · split at h
      · cases h
        simp
      · cases h
  · cases h

/-- Bytes of a message, of which those before the offset are there. -/
structure Buffer where
  bytes : List UInt8 := []
  offset : Nat := 0

namespace Buffer
variable {b : Buffer} {taken : List UInt8} {r : Receiver} {f : Frame} {budget rest : Budget}
  {now : Micros}

def single? (b : Buffer) (f : Frame) (budget : Budget) : Option Buffer := do
  let payload ← f.payload?
  let head ← payload[0]?
  let length := (lowNibble head).toNat
  if Pdu.singleLimit < length ∨ payload.length < length + 1 then some b
  else match budget.reserve length with
    | .error _ => some b
    | .ok _ => do
      let carried ← slice? payload 1 (1 + length)
      some { bytes := b.bytes ++ carried, offset := length }

def first? (b : Buffer) (r : Receiver) (f : Frame) (budget : Budget) : Option Buffer :=
  if r.address.isFunctional ∨ f.dlc ≠ 8 then some b
  else do
    let payload ← f.payload?
    match ← announcedIn? payload with
    | none => some b
    | some (length, header) =>
      if length ≤ Pdu.singleLimit then some b
      else match budget.reserve length with
        | .error _ => some b
        | .ok _ => do
          let room ← minus? payload.length header
          let carried := min room length
          let chunk ← slice? payload header (header + carried)
          let bytes ← overwrite? (List.replicate length 0) 0 carried chunk
          some { bytes, offset := carried }

def open? (b : Buffer) (r : Receiver) (f : Frame) (budget : Budget) : Option Buffer :=
  match f.pduType? with
  | some .singleFrame => b.single? f budget
  | some .firstFrame => b.first? r f budget
  | _ => some b

def consecutive? (b : Buffer) (r : Receiver) (f : Frame) : Option Buffer :=
  if f.pduType? ≠ some .consecutiveFrame then some b
  else do
    let payload ← f.payload?
    let head ← payload[0]?
    if lowNibble head ≠ r.sequence then some b
    else do
      let carried ← minus? payload.length 1
      let room ← minus? r.expected b.offset
      let count := min carried room
      let chunk ← slice? payload 1 (1 + count)
      let bytes ← overwrite? b.bytes b.offset (b.offset + count) chunk
      some { bytes, offset := b.offset + count }

def message? (b : Buffer) (r : Receiver) : Option (List UInt8) :=
  match r.result with
  | some (.ok _) => slice? b.bytes 0 r.expected
  | _ => some []

/-- The bytes before the offset are those. -/
structure Holds (b : Buffer) (taken : List UInt8) : Prop where
  offset : b.offset = taken.length
  bytes : b.bytes.take b.offset = taken

theorem Holds.fill (h : b.Holds taken) (chunk : List UInt8)
    (hroom : taken.length + chunk.length ≤ b.bytes.length) :
    ∃ bytes, overwrite? b.bytes b.offset (b.offset + chunk.length) chunk = some bytes ∧
      bytes.length = b.bytes.length ∧ Holds { bytes, offset := b.offset + chunk.length }
      (taken ++ chunk) := by
  have hlength : (b.bytes.take b.offset).length = taken.length := congrArg List.length h.bytes
  rw [← h.offset] at hroom
  refine ⟨_, overwrite?_eq hroom, ?_, ?_, ?_⟩
  · simp only [List.length_append, hlength, List.length_drop, ← h.offset]
    omega
  · rw [List.length_append, h.offset]
  · rw [h.bytes, List.take_left' (by rw [List.length_append, h.offset])]

theorem open?_unfit (h : r.Unfit budget f) : b.open? r f budget = some b := by
  cases h with
  | kind single first =>
    unfold open?
    split
    · next kind => exact absurd kind single
    · next kind => exact absurd kind first
    · rfl
  | length kind length =>
    simp only [open?, kind, single?, Frame.payload?_eq, Option.bind_eq_bind, Option.bind_some,
      Frame.getElem?_zero_payload kind, if_pos length]
  | unpaid kind refused =>
    simp only [open?, kind, single?, Frame.payload?_eq, Option.bind_eq_bind, Option.bind_some,
      Frame.getElem?_zero_payload kind, refused, ite_self]
  | form kind form => simp only [open?, kind, first?, if_pos form]
  | unannounced kind announced =>
    simp only [open?, kind, first?, Frame.payload?_eq, Option.bind_eq_bind, Option.bind_some,
      announcedIn?_eq, announced, ite_self]
  | short kind announced short =>
    simp only [open?, kind, first?, Frame.payload?_eq, Option.bind_eq_bind, Option.bind_some,
      announcedIn?_eq, announced, if_pos short, ite_self]

theorem open?_refused {length offset : Nat} {error : BudgetError}
    (kind : f.pduType? = some .firstFrame)
    (announced : Pdu.announced? f.payload = some (length, offset))
    (refused : budget.reserve length = .error error) :
    b.open? r f budget = some b := by
  simp only [open?, kind, first?, Frame.payload?_eq, Option.bind_eq_bind, Option.bind_some,
    announcedIn?_eq, announced, refused, ite_self]

theorem open?_single (kind : f.pduType? = some .singleFrame)
    (short : (lowNibble (f.byte 0)).toNat ≤ Pdu.singleLimit)
    (carried : (lowNibble (f.byte 0)).toNat + 1 ≤ f.payload.length)
    (reserved : budget.reserve (lowNibble (f.byte 0)).toNat = .ok rest) :
    ∃ b, open? {} r f budget = some b ∧ b.bytes.length = (lowNibble (f.byte 0)).toNat ∧
      b.Holds ((f.payload.drop 1).take (lowNibble (f.byte 0)).toNat) := by
  have fits : ¬(Pdu.singleLimit < (lowNibble (f.byte 0)).toNat ∨ f.payload.length <
      (lowNibble (f.byte 0)).toNat + 1) :=
    not_or.mpr ⟨Nat.not_lt.mpr short, Nat.not_lt.mpr carried⟩
  have hlength : ((f.payload.drop 1).take (lowNibble (f.byte 0)).toNat).length =
      (lowNibble (f.byte 0)).toNat :=
    r.length_whole carried
  refine ⟨{ bytes := (f.payload.drop 1).take (lowNibble (f.byte 0)).toNat, offset := (lowNibble (f.byte 0)).toNat },
    ?_, hlength, hlength.symm, List.take_of_length_le (Nat.le_of_eq hlength)⟩
  simp only [open?, kind, single?, Frame.payload?_eq, Option.bind_eq_bind, Option.bind_some,
    Frame.getElem?_zero_payload kind, if_neg fits, reserved,
    slice?_add (Nat.add_comm _ 1 ▸ carried), List.nil_append]

theorem open?_first {length offset : Nat} (kind : f.pduType? = some .firstFrame)
    (physical : r.address.isFunctional = false) (full : f.dlc = 8)
    (announced : Pdu.announced? f.payload = some (length, offset)) (long : Pdu.singleLimit < length)
    (reserved : budget.reserve length = .ok rest) :
    ∃ b, open? {} r f budget = some b ∧ b.bytes.length = length ∧
      b.Holds ((f.payload.drop offset).take length) := by
  obtain ⟨-, hoffset⟩ := Pdu.offset_of_announced? announced
  have hchunk : (f.payload.drop offset).take (min (f.payload.length - offset) length) =
      (f.payload.drop offset).take length := by
    rw [Nat.min_comm, ← List.length_drop, ← List.take_eq_take_min]
  have hlength : ((f.payload.drop offset).take length).length =
      min (f.payload.length - offset) length := by
    rw [List.length_take, List.length_drop, Nat.min_comm]
  have hempty : Holds { bytes := List.replicate length 0, offset := 0 } [] := ⟨rfl, rfl⟩
  obtain ⟨bytes, hbytes, hfull, holds⟩ := hempty.fill ((f.payload.drop offset).take length)
    (by simp only [List.length_nil, hlength, List.length_replicate]; omega)
  rw [hlength, Nat.zero_add] at hbytes holds
  refine ⟨_, ?_, hfull.trans List.length_replicate, holds⟩
  have suits : ¬(r.address.isFunctional = true ∨ f.dlc ≠ 8) := by simp [physical, full]
  simp only [open?, kind, first?, if_neg suits, Frame.payload?_eq, Option.bind_eq_bind,
    Option.bind_some, announcedIn?_eq, announced, if_neg (Nat.not_le.mpr long),
    reserved, minus?_eq hoffset, slice?_add (show offset + min (f.payload.length - offset) length ≤
      f.payload.length by omega), hchunk, hbytes]

theorem consecutive?_unexpected (kind : f.pduType? ≠ some .consecutiveFrame) :
    b.consecutive? r f = some b := if_pos kind

theorem consecutive?_misplaced (kind : f.pduType? = some .consecutiveFrame)
    (number : lowNibble (f.byte 0) ≠ r.sequence) :
    b.consecutive? r f = some b := by
  simp only [consecutive?, kind, ne_eq, not_true_eq_false, if_false, Frame.payload?_eq,
    Option.bind_eq_bind, Option.bind_some, Frame.getElem?_zero_payload kind]
  exact if_pos number

theorem consecutive?_absorbed (holds : b.Holds r.taken) (hlength : b.bytes.length = r.expected)
    (hle : r.taken.length ≤ r.expected) (kind : f.pduType? = some .consecutiveFrame)
    (number : lowNibble (f.byte 0) = r.sequence) :
    ∃ b', b.consecutive? r f = some b' ∧ b'.bytes.length = r.expected ∧
      b'.Holds (r.absorbed f).taken := by
  have hchunk : (f.payload.drop 1).take (min (f.payload.length - 1) (r.expected - b.offset)) =
      (f.payload.drop 1).take (r.expected - r.taken.length) := by
    rw [Nat.min_comm, ← List.length_drop, ← List.take_eq_take_min, holds.offset]
  have hcount : ((f.payload.drop 1).take (r.expected - r.taken.length)).length =
      min (f.payload.length - 1) (r.expected - b.offset) := by
    rw [List.length_take, List.length_drop, Nat.min_comm, holds.offset]
  obtain ⟨bytes, hbytes, hfull, holds'⟩ :=
    holds.fill ((f.payload.drop 1).take (r.expected - r.taken.length))
      (by rw [hcount, hlength, holds.offset]; omega)
  rw [hcount] at hbytes holds'
  have hpayload := Frame.length_payload_pos kind
  refine ⟨_, ?_, hfull.trans hlength, holds'⟩
  simp only [consecutive?, kind, number, ne_eq, not_true_eq_false, if_false,
    Frame.payload?_eq, Option.bind_eq_bind, Option.bind_some, Frame.getElem?_zero_payload kind,
    minus?_eq hpayload, minus?_eq (holds.offset ▸ hle),
    slice?_add (show 1 + min (f.payload.length - 1) (r.expected - b.offset) ≤
      f.payload.length by omega), hchunk, hbytes]

end Buffer
end CanTransport
