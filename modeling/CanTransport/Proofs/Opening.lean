import CanTransport.Proofs.Dialogue

/-! # How a message begins

All of it in a single frame, or a first frame that opens a conversation.
-/
namespace CanTransport

theorem Budget.reserve_eq {budget : Budget} {bytes : Nat} (hb : (bytes : Int) ≤ budget.remaining)
    (ht : budget.remaining ≤ Budget.top) :
    budget.reserve bytes = .ok ⟨budget.remaining - bytes⟩ := by
  have hr : 0 ≤ budget.remaining - bytes ∧ budget.remaining - bytes ≤ Budget.top := by omega
  rw [reserve, if_pos (by omega), take]
  exact if_pos hr

variable {address : Address} {message : List UInt8} {clock : Micros} {s : Sender}
  {r : Receiver} {budget : Budget}

def Sender.initial (address : Address) (message : List UInt8) (kind : MessageType)
    (waitLimit : Option UInt8) : Sender :=
  { address, kind, message, waitLimit
    phase := if message.length ≤ Pdu.singleLimit then .sendSingle else .sendFirst }

def Receiver.initial (address : Address) (blockSize : UInt8) (separation : SeparationTime) :
    Receiver :=
  { address, blockSize, separation, sentBlockSize := blockSize, sentSeparation := separation }

theorem Sender.create_eq {kind : MessageType} {waitLimit : Option UInt8}
    (hf : address.isFunctional = false) (hl : message.length < Pdu.lengthLimit)
    (hb : ((message.length + labelBytes : Nat) : Int) ≤ budget.remaining)
    (ht : budget.remaining ≤ Budget.top) : Sender.create address message kind waitLimit budget =
      .ok (.initial address message kind waitLimit,
        ⟨budget.remaining - (message.length + labelBytes : Nat)⟩) := by
  rw [create, if_neg (by simp [hf]), if_neg (Nat.not_le.mpr hl), Budget.reserve_eq hb ht]
  rfl

theorem Receiver.create_eq (address : Address) (blockSize : UInt8) (separation : SeparationTime)
    (hb : (labelBytes : Int) ≤ budget.remaining) (ht : budget.remaining ≤ Budget.top) :
    Receiver.create address blockSize separation budget =
      .ok (.initial address blockSize separation, ⟨budget.remaining - labelBytes⟩) := by
  rw [create, Budget.reserve_eq hb ht]
  rfl

variable {kind : MessageType} {waitLimit : Option UInt8} {blockSize : UInt8}
  {separation : SeparationTime}

namespace Sender

theorem sendSingle_eq {f : Frame} (hf : Pdu.singleFrame? s.address s.message = some f) :
    s.sendSingle clock = s.transmit clock f fun s _ =>
    { s with offset := s.message.length, phase := .awaitSingleAck } := by
  rw [sendSingle, hf]

theorem sendFirst_eq {f : Frame} {carried : Nat}
    (hf : Pdu.firstFrame? s.address s.message = some (f, carried)) :
    s.sendFirst clock =
      s.transmit clock f fun s _ =>
      { s with offset := carried, sequence := 1, phase := .awaitFirstAck } := by
  rw [sendFirst, hf]

theorem step_first (kind : MessageType) (waitLimit : Option UInt8) (clock : Micros)
    {f : Frame} {carried : Nat} (hs : Pdu.singleLimit < message.length)
    (hf : Pdu.firstFrame? address message = some (f, carried)) :
    (initial address message kind waitLimit).step clock none =
      ((initial address message kind waitLimit).notePace clock).transmit clock f fun s _ =>
        { s with offset := carried, sequence := 1, phase := .awaitFirstAck } := by
  have hp : ((initial address message kind waitLimit).notePace clock).phase = .sendFirst :=
    if_neg (Nat.not_le.mpr hs)
  rw [step_act rfl rfl rfl,
    ← sendFirst_eq (s := (initial address message kind waitLimit).notePace clock) hf]
  unfold act
  rw [hp]

/-- A single frame is sent at once, and all is done once it is heard of. -/
theorem begins_single (address : Address) (kind : MessageType) (waitLimit : Option UInt8)
    (clock : Micros) (hs : message.length ≤ Pdu.singleLimit) :
    ∃ f next s', (initial address message kind waitLimit).step clock none = .write f next ∧
      next true clock = (s', .inProgress) ∧ f.id = address ∧ f.isRelevant = true ∧
        f.pduType? = some .singleFrame ∧
      (lowNibble (f.byte 0)).toNat = message.length ∧ f.payload.drop 1 = message ∧ s'.kind = kind ∧
      s'.message = message ∧ ∀ later, Closed address message (s'.onAck later .success) := by
  obtain ⟨f, hf, hid, hkind, hlength, hbytes⟩ := Pdu.singleFrame?_spec address hs
  have hp : ((initial address message kind waitLimit).notePace clock).phase = .sendSingle :=
    if_pos hs
  have hstep : (initial address message kind waitLimit).step clock none =
      ((initial address message kind waitLimit).notePace clock).sendSingle clock := by
    rw [step_act rfl rfl rfl]
    unfold act
    rw [hp]
  exact ⟨f, _, _, hstep.trans (sendSingle_eq hf), rfl, hid, Pdu.relevant_singleFrame hf, hkind,
    hlength, hbytes, rfl, rfl, fun _ => ⟨rfl, rfl, rfl, rfl⟩⟩

end Sender

namespace Receiver

/-- All of a message that a single frame carries is received at once. -/
theorem takes_single (address : Address) (blockSize : UInt8) (separation : SeparationTime)
    (clock : Micros) {f : Frame} (hk : f.pduType? = some .singleFrame)
    (hl : (lowNibble (f.byte 0)).toNat = message.length) (hs : message.length ≤ Pdu.singleLimit)
    (hm : f.payload.drop 1 = message) (hb : (message.length : Int) ≤ budget.remaining)
    (ht : budget.remaining ≤ Budget.top) :
    ∃ r', (initial address blockSize separation).step clock (some f) budget =
        (.rest r' (.finished (.ok ())), ⟨budget.remaining - message.length⟩) ∧
      r'.result = some (.ok ()) ∧ r'.message = message ∧ r'.expected = message.length ∧
      r'.address = address := by
  have hpayload : ¬ (Pdu.singleLimit < message.length ∨ f.payload.length < message.length + 1) := by
    have hne : f.payload ≠ [] := by
      intro he
      simp [Frame.pduType?, he] at hk
    have hpos := List.length_pos_iff.mpr hne
    have hd : message.length = f.payload.length - 1 := by rw [← hm, List.length_drop]
    omega
  have hopen : (initial address blockSize separation).step clock (some f) budget =
      ((initial address blockSize separation).noteReply clock).takeSingle clock f budget := by
    rw [step_act rfl rfl rfl]
    change openWith _ clock f budget = _
    rw [openWith, hk]
  rw [hopen, takeSingle, hl, if_neg hpayload, Budget.reserve_eq hb ht]
  refine ⟨_, rfl, rfl, ?_, rfl, rfl⟩
  change ((f.payload.drop 1).take message.length).take message.length = message
  rw [hm, List.take_length, List.take_length]

theorem takeFirst_eq {f : Frame} {length offset : Nat} (hf : r.address.isFunctional = false)
    (hd : f.dlc = 8) (ha : Pdu.announced? f.payload = some (length, offset))
    (hs : Pdu.singleLimit < length) (hb : (length : Int) ≤ budget.remaining)
    (ht : budget.remaining ≤ Budget.top) :
    r.takeFirst clock f budget =
      (.rest ({ r with expected := length, taken := (f.payload.drop offset).take length, sequence := 1 }.owe clock)
        (.firstFrame length), ⟨budget.remaining - length⟩) := by
  rw [takeFirst, if_neg (by simp [hf, hd]), ha]
  dsimp only
  rw [if_neg (Nat.not_le.mpr hs), Budget.reserve_eq hb ht]

/-- A first frame that the budget holds is taken, and flow control is what the receiver owes then.
-/
theorem takes_first {address : Address} (blockSize : UInt8) (separation : SeparationTime)
    (clock : Micros) {f : Frame} {length offset : Nat} (hk : f.pduType? = some .firstFrame)
    (hf : address.isFunctional = false) (hd : f.dlc = 8)
    (ha : Pdu.announced? f.payload = some (length, offset)) (hs : Pdu.singleLimit < length)
    (hb : (length : Int) ≤ budget.remaining) (ht : budget.remaining ≤ Budget.top) :
    (initial address blockSize separation).step clock (some f) budget =
      (.rest ({ (initial address blockSize separation).noteReply clock with
        expected := length, taken := (f.payload.drop offset).take length, sequence := 1 }.owe clock)
          (.firstFrame length),
        ⟨budget.remaining - length⟩) := by
  rw [step_act rfl rfl rfl]
  change openWith _ clock f budget = _
  rw [openWith, hk]
  exact takeFirst_eq hf hd ha hs hb ht

end Receiver

/-- The sender of a first frame and the receiver that it opens. -/
theorem begins_first (kind : MessageType) (waitLimit : Option UInt8)
    (blockSize : UInt8) (clock : Micros) (hf : address.isFunctional = false)
    (hs : Pdu.singleLimit < message.length) (hl : message.length < Pdu.lengthLimit)
    (hv : separation.isValid = true) (hb : (message.length : Int) ≤ budget.remaining)
    (ht : budget.remaining ≤ Budget.top) :
    ∃ f next s' r', (Sender.initial address message kind waitLimit).step clock none =
      .write f next ∧
      next true clock = (s', .inProgress) ∧ f.id = address ∧ f.isRelevant = true ∧
        f.pduType? = some .firstFrame ∧
      s'.kind = kind ∧ s'.message = message ∧
      (Receiver.initial address blockSize separation).step clock (some f) budget =
        (.rest r' (.firstFrame message.length), ⟨budget.remaining - message.length⟩) ∧
      ∀ later, clock ≤ later → Asking address message later (s'.onAck later .success) r' := by
  obtain ⟨f, hframe, hid, hkind, hdlc, offset, hannounced, hbytes⟩ :=
    Pdu.firstFrame?_spec address hs hl
  have htaken : (f.payload.drop offset).take message.length =
      message.take (Pdu.carried message.length) := by
    rw [hbytes, List.take_take, Nat.min_eq_right (Nat.le_of_lt (Pdu.carried_lt hs))]
  refine ⟨f, _, _, _, Sender.step_first kind waitLimit clock hs hframe, rfl, hid,
    Pdu.relevant_firstFrame hframe, hkind, rfl, rfl, Receiver.takes_first blockSize separation clock
    hkind hf hdlc hannounced hs hb ht, fun later hlater => ?_⟩
  exact {
    source := rfl
    message_eq := rfl
    sending := rfl
    target := rfl
    expected := rfl
    receiving := rfl
    held := rfl
    unfinished := Pdu.carried_lt hs
    taken := htaken
    sequence := rfl
    low := (by decide : lowNibble (1 : UInt8) = 1)
    pause := hv
    confirmed := rfl
    waits := .inl rfl
    since := rfl
    owes := rfl
    unsent := rfl
    unheard := rfl
    earlier := fun last hlast => absurd hlast.symm (Option.some_ne_none last) }

end CanTransport
