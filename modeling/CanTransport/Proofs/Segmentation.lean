import CanTransport.Pdu

/-! # Segmentation of a message

The frames that carry a message, in order: one single frame, or a first frame and as many
consecutive frames as the rest of the message needs. The lemmas read the encoded frames back: their
kind, their number and their bytes.
-/
namespace CanTransport

theorem lowNibble_toNat (b : UInt8) : (lowNibble b).toNat = b.toNat % 16 := by
  simp [lowNibble, UInt8.toNat_mod]

@[simp] theorem lowNibble_lowNibble (b : UInt8) : lowNibble (lowNibble b) = lowNibble b := by
  apply UInt8.toNat_inj.mp
  rw [lowNibble_toNat, lowNibble_toNat, Nat.mod_mod]

theorem PduType.code_add_toNat (kind : PduType) {n : UInt8} (h : n.toNat < 16) :
    (kind.code + n).toNat = kind.code.toNat + n.toNat := by
  have hc : kind.code.toNat ≤ 48 := by cases kind <;> decide
  rw [UInt8.toNat_add, Nat.mod_eq_of_lt (by omega)]

theorem PduType.code_mod (kind : PduType) : kind.code.toNat % 16 = 0 := by cases kind <;> rfl

theorem PduType.ofByte?_code_add (kind : PduType) {n : UInt8} (h : n.toNat < 16) :
    PduType.ofByte? (kind.code + n) = some kind := by
  have hm := kind.code_mod
  have hq : (kind.code + n).toNat / 16 = kind.code.toNat / 16 := by
    rw [kind.code_add_toNat h]
    omega
  rw [ofByte?, hq]
  cases kind <;> rfl

theorem PduType.lowNibble_code_add (kind : PduType) {n : UInt8} (h : n.toNat < 16) :
    lowNibble (kind.code + n) = n := by
  have hm := kind.code_mod
  apply UInt8.toNat_inj.mp
  rw [lowNibble_toNat, kind.code_add_toNat h]
  omega

namespace Frame

theorem ofPayload?_eq_some {id : Address} {bytes : List UInt8} {f : Frame}
    (h : ofPayload? id bytes = some f) :
    f.id = id ∧ f.payload = bytes ∧ f.dlc.toNat = bytes.length ∧ f.extended = true ∧
    f.remote = false := by
  rw [ofPayload?] at h
  split at h
  · next hl =>
    cases h
    have hd : (UInt8.ofNat bytes.length).toNat = bytes.length := by simp; omega
    refine ⟨rfl, ?_, hd, rfl, rfl⟩
    rw [payload, hd]
    change (padded bytes).take bytes.length = bytes
    rw [padded, List.take_take, Nat.min_eq_left hl, List.take_left]
  · simp at h

theorem ofPayload?_isSome (id : Address) (bytes : List UInt8) (h : bytes.length ≤ 8) :
    ∃ f, ofPayload? id bytes = some f := by
  rw [ofPayload?, if_pos h]
  exact ⟨_, rfl⟩

theorem pduType?_of_payload {f : Frame} {b : UInt8} {rest : List UInt8}
    (h : f.payload = b :: rest) :
    f.pduType? = PduType.ofByte? b := by
  rw [pduType?, h]
  rfl

theorem byte_zero_of_payload {f : Frame} {b : UInt8} {rest : List UInt8}
    (h : f.payload = b :: rest) :
    f.byte 0 = b := by
  rw [payload] at h
  rw [byte]
  cases hd : f.data with
  | nil => simp [hd] at h
  | cons x xs =>
    cases hn : f.dlc.toNat with
    | zero => simp [hn] at h
    | succ n =>
      rw [hd, hn, List.take_succ_cons] at h
      exact (List.cons.inj h).1

end Frame

namespace Pdu

theorem wordValue_wordBytes {n : Nat} (h : n < lengthLimit) :
    wordValue (UInt8.ofNat (n / 0x1000000)) (UInt8.ofNat (n / 0x10000)) (UInt8.ofNat (n / 0x100))
      (UInt8.ofNat n) =
      n := by
  simp only [wordValue, UInt8.toNat_ofNat', lengthLimit] at *
  omega

theorem nextSequence_toNat (s : UInt8) : (nextSequence s).toNat = (s.toNat + 1) % 16 := by
  rw [nextSequence, lowNibble_toNat, UInt8.toNat_add]
  simp

theorem singleFrame?_spec (id : Address) {message : List UInt8} (h : message.length ≤ singleLimit) :
    ∃ f, singleFrame? id message = some f ∧ f.id = id ∧ f.pduType? = some .singleFrame ∧
      (lowNibble (f.byte 0)).toNat = message.length ∧ f.payload.drop 1 = message := by
  have hs : message.length ≤ 7 := h
  have hn : (UInt8.ofNat message.length).toNat = message.length := by
    rw [UInt8.toNat_ofNat']
    omega
  have hlow : (UInt8.ofNat message.length).toNat < 16 := by omega
  obtain ⟨f, hf⟩ := Frame.ofPayload?_isSome id
    ((PduType.singleFrame.code + UInt8.ofNat message.length) :: message) (by simp; omega)
  obtain ⟨hid, hp, -⟩ := Frame.ofPayload?_eq_some hf
  refine ⟨f, by rw [singleFrame?, if_pos h, hf], hid, ?_, ?_, by rw [hp]; rfl⟩
  · rw [Frame.pduType?_of_payload hp, PduType.ofByte?_code_add _ hlow]
  · rw [Frame.byte_zero_of_payload hp, PduType.lowNibble_code_add _ hlow, hn]

def carried (length : Nat) : Nat := if length ≤ shortLimit then shortCarried else longCarried

theorem carried_lt {length : Nat} (h : singleLimit < length) : carried length < length := by
  have h : 7 < length := h
  unfold carried
  split <;> simp only [shortCarried, longCarried] <;> omega

theorem announced?_short {a b : UInt8} {rest : List UInt8}
    (h : (lowNibble a).toNat * 256 + b.toNat ≠ 0) :
    announced? (a :: b :: rest) = some ((lowNibble a).toNat * 256 + b.toNat, 2) := by
  unfold announced?
  exact if_pos h

theorem announced?_long {a b c d e f : UInt8} {rest : List UInt8}
    (h : (lowNibble a).toNat * 256 + b.toNat = 0) :
    announced? (a :: b :: c :: d :: e :: f :: rest) = some (wordValue c d e f, 6) := by
  unfold announced?
  exact if_neg (by simpa using h)

theorem firstFrame?_short (id : Address) {message : List UInt8} (hs : singleLimit < message.length)
    (hshort : message.length ≤ shortLimit) :
    ∃ f, firstFrame? id message = some (f, shortCarried) ∧ f.id = id ∧
      f.pduType? = some .firstFrame ∧ f.dlc = 8 ∧ announced? f.payload = some (message.length, 2) ∧
      f.payload.drop 2 = message.take shortCarried := by
  have h7 : 7 < message.length := hs
  have h4095 : message.length ≤ 4095 := hshort
  have hhigh : (UInt8.ofNat (message.length / 256)).toNat = message.length / 256 := by
    rw [UInt8.toNat_ofNat']
    omega
  have hlow : (UInt8.ofNat (message.length / 256)).toNat < 16 := by omega
  have hsize : (message.take shortCarried).length = 6 := by simp [shortCarried]; omega
  obtain ⟨f, hf⟩ := Frame.ofPayload?_isSome id
    ((PduType.firstFrame.code + UInt8.ofNat (message.length / 256)) ::
      UInt8.ofNat message.length :: message.take shortCarried) (by simp [hsize])
  obtain ⟨hid, hp, hd, -⟩ := Frame.ofPayload?_eq_some hf
  refine ⟨f, ?_, hid, ?_, ?_, ?_, by rw [hp]; rfl⟩
  · rw [firstFrame?, if_neg (by omega), if_pos hshort, hf]
    rfl
  · rw [Frame.pduType?_of_payload hp, PduType.ofByte?_code_add _ hlow]
  · apply UInt8.toNat_inj.mp
    simpa [hsize] using hd
  · have hvalue : message.length / 256 * 256 + (UInt8.ofNat message.length).toNat =
        message.length := by
      rw [UInt8.toNat_ofNat']
      omega
    have hlength :
        (lowNibble (PduType.firstFrame.code + UInt8.ofNat (message.length / 256))).toNat * 256 +
        (UInt8.ofNat message.length).toNat = message.length := by
      rw [PduType.lowNibble_code_add _ hlow, hhigh, hvalue]
    rw [hp, announced?_short (by omega), hlength]

theorem firstFrame?_long (id : Address) {message : List UInt8} (hlong : shortLimit < message.length)
    (hl : message.length < lengthLimit) :
    ∃ f, firstFrame? id message = some (f, longCarried) ∧ f.id = id ∧
      f.pduType? = some .firstFrame ∧ f.dlc = 8 ∧ announced? f.payload = some (message.length, 6) ∧
      f.payload.drop 6 = message.take longCarried := by
  have h4095 : 4095 < message.length := hlong
  have h7 : ¬ message.length ≤ singleLimit := by
    simp only [singleLimit]
    omega
  have hsize : (message.take longCarried).length = 2 := by simp [longCarried]; omega
  obtain ⟨f, hf⟩ := Frame.ofPayload?_isSome id
    (PduType.firstFrame.code :: 0 :: wordBytes message.length ++ message.take longCarried)
    (by simp [hsize, wordBytes])
  obtain ⟨hid, hp, hd, -⟩ := Frame.ofPayload?_eq_some hf
  refine ⟨f, ?_, hid, ?_, ?_, ?_, by rw [hp]; rfl⟩
  · rw [firstFrame?, if_neg h7, if_neg (Nat.not_le_of_lt hlong), if_pos hl, hf]
    rfl
  · rw [Frame.pduType?_of_payload hp]
    rfl
  · apply UInt8.toNat_inj.mp
    simpa [hsize, wordBytes] using hd
  · rw [hp, wordBytes]
    simp only [List.cons_append]
    rw [announced?_long (by decide), wordValue_wordBytes hl]

/-- A first frame announces the length of its message and carries its first bytes. -/
theorem firstFrame?_spec (id : Address) {message : List UInt8} (hs : singleLimit < message.length)
    (hl : message.length < lengthLimit) :
    ∃ f, firstFrame? id message = some (f, carried message.length) ∧ f.id = id ∧
      f.pduType? = some .firstFrame ∧ f.dlc = 8 ∧
      ∃ offset, announced? f.payload = some (message.length, offset) ∧
        f.payload.drop offset = message.take (carried message.length) := by
  by_cases hshort : message.length ≤ shortLimit
  · obtain ⟨f, hf, hid, hkind, hdlc, hannounced, hbytes⟩ := firstFrame?_short id hs hshort
    rw [show carried message.length = shortCarried from if_pos hshort]
    exact ⟨f, hf, hid, hkind, hdlc, 2, hannounced, hbytes⟩
  · obtain ⟨f, hf, hid, hkind, hdlc, hannounced, hbytes⟩ :=
      firstFrame?_long id (Nat.lt_of_not_le hshort) hl
    rw [show carried message.length = longCarried from if_neg hshort]
    exact ⟨f, hf, hid, hkind, hdlc, 6, hannounced, hbytes⟩

theorem consecutiveFrame?_spec (id : Address) (sequence : UInt8) (chunk : List UInt8)
    (h : chunk.length ≤ chunkSize) :
    ∃ f, consecutiveFrame? id sequence chunk = some f ∧ f.id = id ∧
      f.pduType? = some .consecutiveFrame ∧ lowNibble (f.byte 0) = lowNibble sequence ∧
      f.payload.drop 1 = chunk := by
  have h7 : chunk.length ≤ 7 := h
  have hlow : (lowNibble sequence).toNat < 16 := by
    rw [lowNibble_toNat]
    omega
  obtain ⟨f, hf⟩ := Frame.ofPayload?_isSome id
    ((PduType.consecutiveFrame.code + lowNibble sequence) :: chunk) (by simp; omega)
  obtain ⟨hid, hp, -⟩ := Frame.ofPayload?_eq_some hf
  refine ⟨f, by rw [consecutiveFrame?, if_pos h, hf], hid, ?_, ?_, by rw [hp]; rfl⟩
  · rw [Frame.pduType?_of_payload hp, PduType.ofByte?_code_add _ hlow]
  · rw [Frame.byte_zero_of_payload hp, PduType.lowNibble_code_add _ hlow]

/-- Consecutive frames for `bytes`, seven in each but the last, numbered from `sequence` on. -/
def consecutiveFrames (id : Address) (sequence : UInt8) (bytes : List UInt8) : List Frame :=
  if bytes = [] then []
  else (consecutiveFrame? id sequence (bytes.take chunkSize)).toList ++
    consecutiveFrames id (nextSequence sequence) (bytes.drop chunkSize)
termination_by bytes.length
decreasing_by
  have := List.length_pos_iff.mpr ‹¬bytes = []›
  simp [chunkSize]
  omega

/-- All frames of a message, in the order in which they are sent. -/
def segmentation (id : Address) (message : List UInt8) : List Frame :=
  match singleFrame? id message, firstFrame? id message with
  | some frame, _ => [frame]
  | none, some (frame, carried) => frame :: consecutiveFrames id 1 (message.drop carried)
  | none, none => []

@[simp] theorem consecutiveFrames_nil (id : Address) (sequence : UInt8) :
    consecutiveFrames id sequence [] = [] := by
  rw [consecutiveFrames, if_pos rfl]

theorem consecutiveFrames_cons {id : Address} {sequence : UInt8} {bytes : List UInt8} {f : Frame}
    (hb : bytes ≠ []) (hf : consecutiveFrame? id sequence (bytes.take chunkSize) = some f) :
    consecutiveFrames id sequence bytes =
      f :: consecutiveFrames id (nextSequence sequence) (bytes.drop chunkSize) := by
  rw [consecutiveFrames, if_neg hb, hf]
  rfl

theorem consecutiveFrames_getElem? {id : Address} {sequence : UInt8} {bytes : List UInt8} {i : Nat}
    {f : Frame} (h : (consecutiveFrames id sequence bytes)[i]? = some f) :
    f.pduType? = some .consecutiveFrame ∧ (lowNibble (f.byte 0)).toNat = (sequence.toNat + i) % 16 ∧
      f.payload.drop 1 = (bytes.drop (chunkSize * i)).take chunkSize ∧
      chunkSize * i < bytes.length := by
  induction i generalizing sequence bytes with
  | zero =>
    by_cases hb : bytes = []
    · simp [hb] at h
    · obtain ⟨g, hg, -, hkind, hlow, hbytes⟩ :=
        consecutiveFrame?_spec id sequence (bytes.take chunkSize) (List.length_take_le _ _)
      rw [consecutiveFrames_cons hb hg] at h
      cases h
      refine ⟨hkind, ?_, by simpa using hbytes, by simpa using List.length_pos_iff.mpr hb⟩
      rw [hlow, lowNibble_toNat, Nat.add_zero]
  | succ i ih =>
    by_cases hb : bytes = []
    · simp [hb] at h
    · obtain ⟨g, hg, -⟩ := consecutiveFrame?_spec id sequence (bytes.take chunkSize)
          (List.length_take_le _ _)
      rw [consecutiveFrames_cons hb hg, List.getElem?_cons_succ] at h
      obtain ⟨hkind, hlow, hbytes, hlt⟩ := ih h
      rw [List.length_drop] at hlt
      refine ⟨hkind, ?_, ?_, ?_⟩
      · rw [hlow, nextSequence_toNat]
        omega
      · rw [hbytes, List.drop_drop, Nat.mul_succ, Nat.add_comm]
      · rw [Nat.mul_succ]
        omega

theorem lt_length_consecutiveFrames {id : Address} {sequence : UInt8} {bytes : List UInt8}
    {i : Nat} :
    i < (consecutiveFrames id sequence bytes).length ↔ chunkSize * i < bytes.length := by
  induction i generalizing sequence bytes with
  | zero =>
    by_cases hb : bytes = []
    · simp [hb]
    · obtain ⟨g, hg, -⟩ := consecutiveFrame?_spec id sequence (bytes.take chunkSize)
          (List.length_take_le _ _)
      rw [consecutiveFrames_cons hb hg]
      simpa using List.length_pos_iff.mpr hb
  | succ i ih =>
    by_cases hb : bytes = []
    · simp [hb]
    · obtain ⟨g, hg, -⟩ := consecutiveFrame?_spec id sequence (bytes.take chunkSize)
          (List.length_take_le _ _)
      rw [consecutiveFrames_cons hb hg, List.length_cons, Nat.add_lt_add_iff_right, ih,
        List.length_drop, Nat.mul_succ]
      omega

theorem singleFrame?_eq_none {id : Address} {message : List UInt8}
    (h : singleLimit < message.length) :
    singleFrame? id message = none := if_neg (by omega)

theorem segmentation_of_single {id : Address} {message : List UInt8} {f : Frame}
    (h : singleFrame? id message = some f) : segmentation id message = [f] := by
  rw [segmentation, h]

theorem segmentation_of_first {id : Address} {message : List UInt8} {f : Frame} {carried : Nat}
    (hs : singleLimit < message.length) (h : firstFrame? id message = some (f, carried)) :
    segmentation id message = f :: consecutiveFrames id 1 (message.drop carried) := by
  rw [segmentation, singleFrame?_eq_none hs, h]

theorem lt_length_segmentation (id : Address) {message : List UInt8} {i : Nat}
    (hs : singleLimit < message.length) (hl : message.length < lengthLimit) :
    i + 1 < (segmentation id message).length ↔
      carried message.length + chunkSize * i < message.length := by
  obtain ⟨f, hf, -⟩ := firstFrame?_spec id hs hl
  rw [segmentation_of_first hs hf, List.length_cons, Nat.add_lt_add_iff_right,
    lt_length_consecutiveFrames, List.length_drop]
  have := carried_lt hs
  omega

/-- What tells the frame number `i` of a message from all others. -/
inductive IsSegment (message : List UInt8) : Nat → Frame → Prop
  | single {f : Frame} (length_le : message.length ≤ singleLimit)
      (kind : f.pduType? = some .singleFrame)
      (length : (lowNibble (f.byte 0)).toNat = message.length)
      (bytes : f.payload.drop 1 = message) :
      IsSegment message 0 f
  | first {f : Frame} {offset : Nat} (lt_length : singleLimit < message.length)
      (kind : f.pduType? = some .firstFrame)
      (length : announced? f.payload = some (message.length, offset))
      (bytes : f.payload.drop offset = message.take (carried message.length)) :
      IsSegment message 0 f
  | consecutive {i : Nat} {f : Frame} (lt_length : singleLimit < message.length)
      (kind : f.pduType? = some .consecutiveFrame)
      (number : (lowNibble (f.byte 0)).toNat = (i + 1) % 16)
      (bytes : f.payload.drop 1 = (message.drop (carried message.length + chunkSize * i)).take
        chunkSize)
      (before : carried message.length + chunkSize * i < message.length) :
    IsSegment message (i + 1) f

theorem isSegment_of_getElem? (id : Address) {message : List UInt8} {i : Nat} {f : Frame}
    (hl : message.length < lengthLimit) (h : (segmentation id message)[i]? = some f) :
    IsSegment message i f := by
  by_cases hs : message.length ≤ singleLimit
  · obtain ⟨g, hg, -, hkind, hlength, hbytes⟩ := singleFrame?_spec id hs
    rw [segmentation_of_single hg] at h
    cases i with
    | zero =>
      cases h
      exact .single hs hkind hlength hbytes
    | succ i => simp at h
  · have hs : singleLimit < message.length := by omega
    obtain ⟨g, hg, -, hkind, -, offset, hlength, hbytes⟩ := firstFrame?_spec id hs hl
    rw [segmentation_of_first hs hg] at h
    cases i with
    | zero =>
      cases h
      exact .first hs hkind hlength hbytes
    | succ i =>
      obtain ⟨hkind, hnumber, hbytes, hlt⟩ := consecutiveFrames_getElem? h
      rw [List.drop_drop] at hbytes
      rw [List.length_drop] at hlt
      refine .consecutive hs hkind ?_ hbytes (by omega)
      rw [hnumber]
      change (1 + i) % 16 = _
      rw [Nat.add_comm]

end Pdu
end CanTransport
