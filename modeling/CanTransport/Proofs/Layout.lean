import CanTransport.Proofs.Segmentation

/-! # A message on the bus, byte by byte

What the frames of a message look like is written down here without the encoders: a length and all
bytes in one frame, or a length and the first bytes, and then the rest by sevens, numbered from one
on modulo sixteen. The segmentation is this layout.
-/
namespace CanTransport

def Frame.carrying (id : Address) (bytes : List UInt8) : Frame where
  id
  data := padded bytes
  dlc := UInt8.ofNat bytes.length
  extended := true
  remote := false
  length_data := length_padded bytes

def Frame.segment (f : Frame) : List UInt8 :=
  match f.pduType? with
  | some .singleFrame | some .consecutiveFrame => f.payload.drop 1
  | some .firstFrame =>
    ((Pdu.announced? f.payload).map fun (_, offset) => f.payload.drop offset).getD []
  | _ => []

namespace Pdu

/-- Seven bytes at a time, fewer at the end, each after the code of a consecutive frame and a number
modulo sixteen. -/
def numbered (first : Nat) (bytes : List UInt8) : List (List UInt8) :=
  (List.range ((bytes.length + 6) / 7)).map fun i =>
    UInt8.ofNat (0x20 + (first + i) % 16) :: (bytes.drop (7 * i)).take 7

/-- The payloads of a message's frames. -/
def layout (message : List UInt8) : List (List UInt8) :=
  let total := message.length
  if total ≤ 7 then [UInt8.ofNat total :: message]
  else if total ≤ 4095 then
    (UInt8.ofNat (0x10 + total / 256) :: UInt8.ofNat (total % 256) :: message.take 6) ::
    numbered 1 (message.drop 6)
  else
    (0x10 :: 0 :: UInt8.ofNat (total / 0x1000000) :: UInt8.ofNat (total / 0x10000 % 256) ::
      UInt8.ofNat (total / 0x100 % 256) :: UInt8.ofNat (total % 256) :: message.take 2) ::
      numbered 1 (message.drop 2)

variable {id : Address} {message bytes : List UInt8}

theorem ofPayload?_eq_carrying (h : bytes.length ≤ 8) :
    Frame.ofPayload? id bytes = some (.carrying id bytes) := if_pos h

theorem ofNat_eq_ofNat {a b : Nat} (h : a % 256 = b % 256) : UInt8.ofNat a = UInt8.ofNat b := by
  apply UInt8.toNat_inj.mp
  rw [UInt8.toNat_ofNat', UInt8.toNat_ofNat']
  exact h

theorem consecutiveFrame?_eq_carrying {sequence : UInt8} {n : Nat}
    (hn : sequence.toNat % 16 = n % 16) (hb : bytes.length ≤ 7) :
    consecutiveFrame? id sequence bytes =
      some (.carrying id (UInt8.ofNat (0x20 + n % 16) :: bytes)) := by
  have hcode : PduType.consecutiveFrame.code + lowNibble sequence =
      UInt8.ofNat (0x20 + n % 16) := by
    apply UInt8.toNat_inj.mp
    rw [PduType.consecutiveFrame.code_add_toNat (by rw [lowNibble_toNat]; omega), lowNibble_toNat,
      hn, UInt8.toNat_ofNat']
    change 32 + n % 16 = _
    omega
  rw [consecutiveFrame?, if_pos (show bytes.length ≤ chunkSize from hb), hcode]
  exact ofPayload?_eq_carrying (Nat.succ_le_succ hb)

@[simp] theorem numbered_nil (first : Nat) : numbered first [] = [] := rfl

theorem numbered_of_ne_nil (first : Nat) (h : bytes ≠ []) :
    numbered first bytes = (UInt8.ofNat (0x20 + first % 16) :: bytes.take 7) :: numbered (first + 1)
      (bytes.drop 7) := by
  have hpos : 0 < bytes.length := List.length_pos_iff.mpr h
  have hcount : (bytes.length + 6) / 7 = ((bytes.drop 7).length + 6) / 7 + 1 := by
    rw [List.length_drop]
    omega
  rw [numbered, hcount, List.range_succ_eq_map, List.map_cons, List.map_map, numbered]
  congr 1
  apply List.map_congr_left
  intro i _
  simp only [Function.comp_apply, List.drop_drop, Nat.mul_succ, Nat.add_comm,
    Nat.add_left_comm, Nat.succ_eq_add_one]

theorem numbered_congr {m n : Nat} (h : m % 16 = n % 16) : numbered m bytes = numbered n bytes := by
  apply List.map_congr_left
  intro i _
  rw [show (m + i) % 16 = (n + i) % 16 by omega]

theorem consecutiveFrames_eq_numbered (id : Address) (sequence : UInt8) (bytes : List UInt8) :
    consecutiveFrames id sequence bytes = (numbered sequence.toNat bytes).map (.carrying id) := by
  fun_induction consecutiveFrames id sequence bytes with
  | case1 => rfl
  | case2 sequence bytes h ih =>
    have hf : consecutiveFrame? id sequence (bytes.take chunkSize) =
        some (.carrying id (UInt8.ofNat (0x20 + sequence.toNat % 16) :: bytes.take 7)) :=
      consecutiveFrame?_eq_carrying rfl (List.length_take_le _ _)
    have hnext : (nextSequence sequence).toNat % 16 = (sequence.toNat + 1) % 16 := by
      rw [nextSequence_toNat, Nat.mod_mod]
    rw [hf, ih, numbered_of_ne_nil _ h, List.map_cons, numbered_congr hnext]
    rfl

theorem segmentation_eq_layout (id : Address) (h : message.length < lengthLimit) :
    segmentation id message = (layout message).map (.carrying id) := by
  by_cases hs : message.length ≤ 7
  · have hf : singleFrame? id message =
        some (.carrying id (UInt8.ofNat message.length :: message)) := by
      rw [singleFrame?, if_pos (show message.length ≤ singleLimit from hs),
        show PduType.singleFrame.code + UInt8.ofNat message.length =
            UInt8.ofNat message.length from UInt8.zero_add _]
      exact ofPayload?_eq_carrying (by rw [List.length_cons]; omega)
    rw [segmentation_of_single hf, layout, if_pos hs]
    rfl
  · have hs' : singleLimit < message.length := Nat.lt_of_not_le hs
    by_cases hl : message.length ≤ 4095
    · have hcode : PduType.firstFrame.code + UInt8.ofNat (message.length / 256) =
          UInt8.ofNat (0x10 + message.length / 256) := by
        apply UInt8.toNat_inj.mp
        rw [PduType.firstFrame.code_add_toNat (by rw [UInt8.toNat_ofNat']; omega),
          UInt8.toNat_ofNat', UInt8.toNat_ofNat']
        change 16 + _ = _
        omega
      have hf : firstFrame? id message =
          some (.carrying id (UInt8.ofNat (0x10 + message.length / 256) ::
            UInt8.ofNat (message.length % 256) ::
            message.take 6), 6) := by
        rw [firstFrame?, if_neg (Nat.not_le.mpr hs'),
          if_pos (show message.length ≤ shortLimit from hl), hcode,
          ofNat_eq_ofNat (Nat.mod_mod message.length 256).symm,
          ofPayload?_eq_carrying (by simp [shortCarried]; omega)]
        rfl
      rw [segmentation_of_first hs' hf, layout, if_neg hs, if_pos hl, consecutiveFrames_eq_numbered]
      rfl
    · have hw : wordBytes message.length = [UInt8.ofNat (message.length / 0x1000000),
          UInt8.ofNat (message.length / 0x10000 % 256), UInt8.ofNat (message.length / 0x100 % 256),
          UInt8.ofNat (message.length % 256)] := by
        rw [wordBytes, ofNat_eq_ofNat (Nat.mod_mod message.length 256).symm,
          ofNat_eq_ofNat (Nat.mod_mod (message.length / 0x100) 256).symm,
          ofNat_eq_ofNat (Nat.mod_mod (message.length / 0x10000) 256).symm]
      have hf : firstFrame? id message =
          some (.carrying id (0x10 :: 0 :: UInt8.ofNat (message.length / 0x1000000) ::
            UInt8.ofNat (message.length / 0x10000 % 256) ::
            UInt8.ofNat (message.length / 0x100 % 256) ::
            UInt8.ofNat (message.length % 256) :: message.take 2), 2) := by
        rw [firstFrame?, if_neg (Nat.not_le.mpr hs'),
          if_neg (show ¬ message.length ≤ shortLimit from hl), if_pos h, hw,
          ofPayload?_eq_carrying (by simp [longCarried]; omega)]
        rfl
      rw [segmentation_of_first hs' hf, layout, if_neg hs, if_neg hl, consecutiveFrames_eq_numbered]
      rfl

/-- Consecutive frames carry their bytes and nothing else. -/
theorem flatMap_segment_consecutiveFrames (id : Address) (sequence : UInt8) (bytes : List UInt8) :
    (consecutiveFrames id sequence bytes).flatMap Frame.segment = bytes := by
  fun_induction consecutiveFrames id sequence bytes with
  | case1 => rfl
  | case2 sequence bytes h ih =>
    obtain ⟨f, hf, -, hkind, -, hbytes⟩ := consecutiveFrame?_spec id sequence (bytes.take chunkSize)
        (List.length_take_le _ _)
    have hsegment : f.segment = bytes.take chunkSize := by rw [Frame.segment, hkind]; exact hbytes
    rw [hf, Option.toList_some, List.singleton_append, List.flatMap_cons, hsegment, ih,
      List.take_append_drop]

/-- The frames of a message carry it, in order. -/
theorem flatMap_segment_segmentation (id : Address) (h : message.length < lengthLimit) :
    (segmentation id message).flatMap Frame.segment = message := by
  by_cases hs : message.length ≤ singleLimit
  · obtain ⟨f, hf, -, hkind, -, hbytes⟩ := singleFrame?_spec id hs
    have hsegment : f.segment = message := by rw [Frame.segment, hkind]; exact hbytes
    rw [segmentation_of_single hf, List.flatMap_singleton, hsegment]
  · have hs := Nat.lt_of_not_le hs
    obtain ⟨f, hf, -, hkind, -, offset, hlength, hbytes⟩ := firstFrame?_spec id hs h
    have hsegment : f.segment = message.take (carried message.length) := by
      rw [Frame.segment, hkind]
      dsimp only
      rw [hlength]
      exact hbytes
    rw [segmentation_of_first hs hf, List.flatMap_cons, hsegment, flatMap_segment_consecutiveFrames,
      List.take_append_drop]

end Pdu
end CanTransport
