import CanTransport.Proofs.Buffering
import CanTransport.Proofs.Layout

/-! # The encoders read back

Every frame that the encoders make is read by the same functions that the endpoints read frames
with, and what they find in it is what the encoders were told. Hence two telegrams that give one
frame say the same.
-/
namespace CanTransport

/-- What an encoder is told. -/
inductive Telegram
  | single (message : List UInt8)
  | first (message : List UInt8)
  | consecutive (sequence : UInt8) (chunk : List UInt8)
  | flowControl (status : FlowStatus) (blockSize : UInt8) (separation : SeparationTime)

/-- What a frame says: its kind and the fields that it carries. -/
inductive Content
  | single (bytes : List UInt8)
  | first (length : Nat) (bytes : List UInt8)
  | consecutive (number : Nat) (bytes : List UInt8)
  | flowControl (status : FlowStatus) (blockSize : UInt8) (separation : SeparationTime)
deriving DecidableEq

namespace Telegram

def encode? (id : Address) : Telegram → Option Frame
  | single message => Pdu.singleFrame? id message
  | first message => (Pdu.firstFrame? id message).map (·.1)
  | consecutive sequence chunk => Pdu.consecutiveFrame? id sequence chunk
  | flowControl status blockSize separation => some (Pdu.flowControl id status blockSize separation)

/-- What of a telegram travels. A first frame says how long its message is and carries only its
first bytes, a sequence number counts modulo sixteen. -/
def content : Telegram → Content
  | single message => .single message
  | first message => .first message.length (message.take (Pdu.carried message.length))
  | consecutive sequence chunk => .consecutive (sequence.toNat % 16) chunk
  | flowControl status blockSize separation => .flowControl status blockSize separation

def IsValid : Telegram → Prop
  | flowControl _ _ separation => separation.isValid = true
  | _ => True

end Telegram

def Frame.content? (f : Frame) : Option Content :=
  match f.pduType? with
  | some .singleFrame => some (.single (f.payload.drop 1))
  | some .firstFrame =>
    (Pdu.announced? f.payload).map fun (length, offset) => .first length (f.payload.drop offset)
  | some .consecutiveFrame => some (.consecutive (lowNibble (f.byte 0)).toNat (f.payload.drop 1))
  | some .flowControl => (FlowStatus.ofCode? (lowNibble (f.byte 0))).map fun status =>
      .flowControl status (f.byte 1) (SeparationTime.ofByte (f.byte 2))
  | none => none

namespace Pdu
variable {id : Address} {message chunk : List UInt8} {sequence : UInt8}

theorem singleFrame?_eq_none_iff : singleFrame? id message = none ↔ 7 < message.length := by
  refine ⟨fun h => Nat.lt_of_not_le fun hs => ?_, fun h => if_neg (Nat.not_le.mpr h)⟩
  obtain ⟨f, hf, -⟩ := singleFrame?_spec id (show message.length ≤ singleLimit from hs)
  exact absurd (h.symm.trans hf) nofun

theorem consecutiveFrame?_eq_none_iff : consecutiveFrame? id sequence chunk = none ↔
    7 < chunk.length := by
  refine ⟨fun h => Nat.lt_of_not_le fun hs => ?_, fun h => if_neg (Nat.not_le.mpr h)⟩
  obtain ⟨f, hf, -⟩ := consecutiveFrame?_spec id sequence chunk hs
  exact absurd (h.symm.trans hf) nofun

theorem firstFrame?_eq_none_iff :
    firstFrame? id message = none ↔ message.length < 8 ∨ 0x100000000 ≤ message.length := by
  constructor
  · refine fun h => Decidable.byContradiction fun hrange => ?_
    obtain ⟨f, hf, -⟩ := firstFrame?_spec id (show 7 < message.length by omega)
        (show _ < 0x100000000 by omega)
    exact absurd (h.symm.trans hf) nofun
  · rintro (h | h)
    · exact if_pos (show message.length ≤ 7 by omega)
    · have hsingle : ¬message.length ≤ singleLimit := Nat.not_le.mpr (show 7 < _ by omega)
      have hshort : ¬message.length ≤ shortLimit := Nat.not_le.mpr (show 4095 < _ by omega)
      rw [firstFrame?, if_neg hsingle, if_neg hshort,
        if_neg (show ¬message.length < lengthLimit from Nat.not_lt.mpr h)]

/-- The 32-bit length follows a twelve-bit one of zero, and then the message begins four bytes
later. -/
theorem escapes_iff {payload : List UInt8} {a : UInt8} {length offset : Nat}
    (hkind : PduType.ofByte? a = some .firstFrame) (ha : payload.head? = some a)
    (h : announced? payload = some (length, offset)) :
    payload.take 2 = [0x10, 0] ↔ offset = 6 := by
  match payload, ha with
  | [_], _ => cases h
  | _ :: b :: rest, rfl =>
    have hcode : a.toNat / 16 = 1 := by
      unfold PduType.ofByte? at hkind
      split at hkind <;> simp_all
    have hlow := lowNibble_toNat a
    have hescape : a = 0x10 ∧ b = 0 ↔ (lowNibble a).toNat * 256 + b.toNat = 0 := by
      simp only [← UInt8.toNat_inj]
      change a.toNat = 16 ∧ b.toNat = 0 ↔ _
      omega
    simp only [List.take_succ_cons, List.take_zero, List.cons.injEq, and_true, hescape]
    by_cases hs : (lowNibble a).toNat * 256 + b.toNat = 0
    · have hoffset : offset = 6 := by
        unfold announced? at h
        dsimp only at h
        rw [if_neg (by simpa using hs)] at h
        split at h
        · cases h
          rfl
        · cases h
      exact iff_of_true hs hoffset
    · rw [announced?_short hs] at h
      cases h
      exact iff_of_false hs nofun

theorem firstFrame?_read (id : Address) (hs : 8 ≤ message.length)
    (hl : message.length < 0x100000000) :
    ∃ f c h, firstFrame? id message = some (f, c) ∧ f.id = id ∧ f.pduType? = some .firstFrame ∧
      f.dlc = 8 ∧ announced? f.payload = some (message.length, h) ∧ h + c = 8 ∧
      f.payload.drop h = message.take c ∧ (f.payload.take 2 = [0x10, 0] ↔ 4095 < message.length) ∧
      (h = 6 ↔ 4095 < message.length) := by
  by_cases hshort : message.length ≤ shortLimit
  · obtain ⟨f, hf, hid, hkind, hdlc, hannounced, hbytes⟩ :=
      firstFrame?_short id (show singleLimit < message.length from hs) hshort
    obtain ⟨a, ha, hcode⟩ := Option.bind_eq_some_iff.mp hkind
    have hlong : 2 = 6 ↔ 4095 < message.length := iff_of_false (by decide) (Nat.not_lt_of_le hshort)
    exact ⟨f, _, 2, hf, hid, hkind, hdlc, hannounced, rfl, hbytes,
      (escapes_iff hcode ha hannounced).trans hlong, hlong⟩
  · have hlong : shortLimit < message.length := Nat.lt_of_not_le hshort
    obtain ⟨f, hf, hid, hkind, hdlc, hannounced, hbytes⟩ := firstFrame?_long id hlong hl
    obtain ⟨a, ha, hcode⟩ := Option.bind_eq_some_iff.mp hkind
    have hlong : 6 = 6 ↔ 4095 < message.length := iff_of_true rfl hlong
    exact ⟨f, _, 6, hf, hid, hkind, hdlc, hannounced, rfl, hbytes,
      (escapes_iff hcode ha hannounced).trans hlong, hlong⟩

theorem flowControl_read (id : Address) (status : FlowStatus) (blockSize : UInt8)
    (separation : SeparationTime) :
    (flowControl id status blockSize separation).pduType? = some .flowControl ∧
      FlowStatus.ofCode? (lowNibble ((flowControl id status blockSize separation).byte 0)) =
      some status ∧ (flowControl id status blockSize separation).byte 1 = blockSize ∧
      (flowControl id status blockSize separation).byte 2 = separation.toByte := by
  refine ⟨by cases status <;> rfl, ?_, rfl, rfl⟩
  have hlow : lowNibble ((flowControl id status blockSize separation).byte 0) = status.code :=
    PduType.lowNibble_code_add .flowControl (by cases status <;> decide)
  rw [hlow, FlowStatus.ofCode?_code]

end Pdu

/-- What is encoded is read back. -/
theorem Telegram.content?_encode {t : Telegram} {id : Address} {f : Frame}
    (h : t.encode? id = some f) (hv : t.IsValid) :
    f.content? = some t.content := by
  cases t with
  | single message =>
    have hs : message.length ≤ 7 :=
      Nat.le_of_not_lt fun hs => absurd (h.symm.trans (Pdu.singleFrame?_eq_none_iff.mpr hs)) nofun
    obtain ⟨g, hg, -, hkind, -, hbytes⟩ := Pdu.singleFrame?_spec id hs
    cases h.symm.trans hg
    rw [Frame.content?, hkind]
    exact congrArg (some <| Content.single ·) hbytes
  | first message =>
    obtain ⟨⟨g, c⟩, hg, rfl⟩ := Option.map_eq_some_iff.mp h
    have hrange : ¬(message.length < 8 ∨ 0x100000000 ≤ message.length) :=
      fun hn => absurd (hg.symm.trans (Pdu.firstFrame?_eq_none_iff.mpr hn)) nofun
    obtain ⟨g', hg', -, hkind, -, offset, hannounced, hbytes⟩ := Pdu.firstFrame?_spec id
      (show 7 < message.length by omega) (show _ < 0x100000000 by omega)
    cases hg.symm.trans hg'
    rw [Frame.content?, hkind]
    simp only [hannounced, Option.map_some, hbytes, content]
  | consecutive sequence chunk =>
    have hs : chunk.length ≤ 7 :=
      Nat.le_of_not_lt fun hs => absurd (h.symm.trans (Pdu.consecutiveFrame?_eq_none_iff.mpr hs))
        nofun
    obtain ⟨g, hg, -, hkind, hlow, hbytes⟩ := Pdu.consecutiveFrame?_spec id sequence chunk hs
    cases h.symm.trans hg
    rw [Frame.content?, hkind]
    simp only [hlow, lowNibble_toNat, hbytes, content]
  | flowControl status blockSize separation =>
    obtain ⟨hkind, hstatus, hsize, hseparation⟩ :=
      Pdu.flowControl_read id status blockSize separation
    cases h
    rw [Frame.content?, hkind]
    simp only [hstatus, Option.map_some, hsize, hseparation, SeparationTime.ofByte_toByte hv,
      content]

/-- Whatever the encoders make is read back as what they were told; they refuse only what is too
long or, for a first frame, too short; and a frame tells what it was made of. -/
theorem wire_round_trip (id : Address) :
    (∀ message : List UInt8, 8 ≤ message.length → message.length < 0x100000000 →
      ∃ f c h, Pdu.firstFrame? id message = some (f, c) ∧ f.id = id ∧
        f.pduType? = some .firstFrame ∧ f.dlc = 8 ∧ Pdu.announced? f.payload =
        some (message.length, h) ∧ h + c = 8 ∧ f.payload.drop h = message.take c ∧
        (f.payload.take 2 = [0x10, 0] ↔ 4095 < message.length) ∧ (h = 6 ↔ 4095 < message.length)) ∧
    (∀ message : List UInt8, message.length ≤ 7 →
      ∃ f, Pdu.singleFrame? id message = some f ∧ f.id = id ∧ f.pduType? = some .singleFrame ∧
        (lowNibble (f.byte 0)).toNat = message.length ∧ f.payload.drop 1 = message) ∧
    (∀ (sequence : UInt8) (chunk : List UInt8), chunk.length ≤ 7 →
      ∃ f, Pdu.consecutiveFrame? id sequence chunk = some f ∧ f.id = id ∧
        f.pduType? = some .consecutiveFrame ∧ (lowNibble (f.byte 0)).toNat = sequence.toNat % 16 ∧
        f.payload.drop 1 = chunk) ∧
    (∀ (status : FlowStatus) (blockSize : UInt8) (separation : SeparationTime), separation.isValid =
      true → ∃ f, Pdu.flowControl id status blockSize separation = f ∧ f.id = id ∧
      f.pduType? = some .flowControl ∧
        FlowStatus.ofCode? (lowNibble (f.byte 0)) = some status ∧ f.byte 1 = blockSize ∧
        SeparationTime.ofByte (f.byte 2) = separation) ∧
    (∀ message, Pdu.firstFrame? id message = none ↔ message.length < 8 ∨
      0x100000000 ≤ message.length) ∧
    (∀ message, Pdu.singleFrame? id message = none ↔ 7 < message.length) ∧
    (∀ sequence chunk, Pdu.consecutiveFrame? id sequence chunk = none ↔ 7 < chunk.length) ∧
    ∀ (t u : Telegram) (f : Frame), t.IsValid → u.IsValid → t.encode? id = some f →
      u.encode? id = some f → t.content = u.content := by
  refine ⟨fun _ => Pdu.firstFrame?_read id, fun _ => Pdu.singleFrame?_spec id, ?_, ?_,
    fun _ => Pdu.firstFrame?_eq_none_iff, fun _ => Pdu.singleFrame?_eq_none_iff, fun _ _ =>
    Pdu.consecutiveFrame?_eq_none_iff, ?_⟩
  · intro sequence chunk hs
    obtain ⟨f, hf, hid, hkind, hlow, hbytes⟩ := Pdu.consecutiveFrame?_spec id sequence chunk hs
    exact ⟨f, hf, hid, hkind, by rw [hlow, lowNibble_toNat], hbytes⟩
  · intro status blockSize separation hv
    obtain ⟨hkind, hstatus, hsize, hseparation⟩ :=
      Pdu.flowControl_read id status blockSize separation
    exact ⟨_, rfl, rfl, hkind, hstatus, hsize, by rw [hseparation, SeparationTime.ofByte_toByte hv]⟩
  · intro t u f ht hu hft hfu
    exact Option.some.inj ((t.content?_encode hft ht).symm.trans (u.content?_encode hfu hu))

/-- A message of 4096 bytes is announced in the long form, and of sequence numbers sixteen apart the
frames are one. -/
theorem wire_round_trip_long :
    (∃ f h, Pdu.firstFrame? ⟨0x18DA2211⟩ (List.replicate 4096 7) = some (f, 2) ∧
      f.payload.take 2 = [0x10, 0] ∧ Pdu.announced? f.payload = some (4096, h)) ∧
    (Telegram.consecutive 3 [1, 2]).content = (Telegram.consecutive 19 [1, 2]).content := by
  obtain ⟨hfirst, -, -, -, -, -, -, hsame⟩ := wire_round_trip ⟨0x18DA2211⟩
  refine ⟨?_, hsame _ _ (.carrying ⟨0x18DA2211⟩ [0x23, 1, 2]) trivial trivial rfl rfl⟩
  obtain ⟨f, c, h, hf, -, -, -, hannounced, hsum, -, hescape, hlong⟩ :=
    hfirst (List.replicate 4096 7) (by rw [List.length_replicate]; decide)
      (by rw [List.length_replicate]; decide)
  rw [List.length_replicate] at hannounced hescape hlong
  have h6 : h = 6 := hlong.mpr (by decide)
  have h2 : c = 2 := by omega
  subst h2
  exact ⟨f, h, hf, hescape.mpr (by decide), hannounced⟩

end CanTransport
