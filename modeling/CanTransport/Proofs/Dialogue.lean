import CanTransport.Endpoint.Basic
import CanTransport.Proofs.Addressing
import CanTransport.Proofs.Reassembly

/-! # One message, exchange by exchange

A sender and a receiver that hear of each frame before the next one comes. They stand abreast
between two frames: the receiver has the bytes that the sender is past. Flow control is asked for,
granted and used up; pauses are kept, and no limit is exceeded as long as little enough time passes
between two exchanges.
-/
namespace CanTransport

namespace Stopwatch

theorem exceeded_of_stopped {w : Stopwatch} (h : w.isRunning = false) (now : Micros) (limit : Nat) :
    w.exceeded now limit = false := by
  rw [exceeded, h, Bool.false_and]

theorem exceeded_start {since now limit : Nat} (h : now ≤ since + limit * 1000) :
    (start since).exceeded now limit = false := by
  have hm : ¬ limit < (now - since) / 1000 := by omega
  simp only [exceeded, isRunning, start, Option.isSome_some, Bool.true_and]
  exact decide_eq_false hm

end Stopwatch

def longestRound : Micros := 100 * 1000

/-- What a sender and a receiver have in common between two frames of a message. -/
structure Abreast (address : Address) (message : List UInt8) (s : Sender) (r : Receiver) :
    Prop where
  source : s.address = address
  message_eq : s.message = message
  sending : s.result = none
  target : r.address = address
  expected : r.expected = message.length
  receiving : r.result = none
  held : r.held = none
  unfinished : s.offset < message.length
  taken : r.taken = message.take s.offset
  sequence : r.sequence = s.sequence
  low : lowNibble s.sequence = s.sequence
  pause : r.separation.isValid = true
  confirmed : s.nAs.isRunning = false

/-- The sender waits for flow control that the receiver is about to send. -/
structure Asking (address : Address) (message : List UInt8) (clock : Micros)
    (s : Sender) (r : Receiver) : Prop extends Abreast address message s r where
  waits : s.phase = .awaitFirstFlow ∨ s.phase = .awaitFlow
  since : s.nBs = .start clock
  owes : r.phase = .sendFlow
  unsent : r.nAr.isRunning = false
  unheard : r.nCr.isRunning = false
  earlier : ∀ last, s.lastFrameAt = some last → last ≤ clock

/-- The receiver waits for frames, and the sender has its flow control before it. -/
structure Granted (address : Address) (message : List UInt8) (clock : Micros)
    (s : Sender) (r : Receiver) : Prop extends Abreast address message s r where
  waits : s.phase = .awaitFirstFlow ∨ s.phase = .awaitFlow
  since : ∃ since, s.nBs = .start since ∧ clock ≤ since + longestRound
  listens : r.phase = .awaitConsecutive
  sent : r.nAr.isRunning = false
  heard : r.nCr = .start clock
  block : r.framesInBlock = 0
  sentPause : r.sentSeparation.isValid = true
  earlier : ∀ last, s.lastFrameAt = some last → last ≤ clock

def grant (address : Address) (r : Receiver) : Frame :=
  Pdu.flowControl address.reversed .continueToSend r.sentBlockSize r.sentSeparation

/-- The sender is free to send the next frame, once the pause is over. -/
structure Flowing (address : Address) (message : List UInt8) (clock : Micros)
    (s : Sender) (r : Receiver) : Prop extends Abreast address message s r where
  sends : s.phase = .sendConsecutive
  granted : s.nBs.isRunning = false
  listens : r.phase = .awaitConsecutive
  sent : r.nAr.isRunning = false
  blockSize : r.sentBlockSize = s.blockSize
  block : r.framesInBlock = s.framesInBlock
  sentPause : s.separation.isValid = true
  heard : ∃ since, r.nCr = .start since ∧ clock ≤ since + s.separation.micros + longestRound ∧
    ∀ last, s.lastFrameAt = some last → last ≤ since

/-- All of the message is sent and heard of. -/
structure Closed (address : Address) (message : List UInt8) (s : Sender) : Prop where
  source : s.address = address
  message_eq : s.message = message
  succeeded : s.result = some (.ok ())
  spent : s.phase = .sent

theorem SeparationTime.micros_le {p : SeparationTime} (h : p.isValid = true) :
    p.micros ≤ 127 * 1000 := by
  obtain ⟨value, unit⟩ := p
  cases unit with
  | millis =>
    have hv : value.toNat ≤ 127 := UInt8.le_iff_toNat_le.mp (of_decide_eq_true h)
    exact Nat.mul_le_mul_right _ hv
  | hundredMicros =>
    have hv : value.toNat ≤ 9 := UInt8.le_iff_toNat_le.mp (of_decide_eq_true h).2
    simp only [micros]
    omega

variable {address : Address} {message : List UInt8} {clock later : Micros} {s : Sender}
  {r : Receiver} {budget : Budget}

namespace Sender

theorem isAwaiting_iff : s.isAwaiting = true ↔ s.phase = .awaitFirstFlow ∨
    s.phase = .awaitFlow := by
  cases phase : s.phase <;> simp [isAwaiting, phase]

theorem act_awaiting (h : s.isAwaiting = true) (f : Frame) :
    s.act clock (some f) = s.takeFlowControl clock f := by
  rcases isAwaiting_iff.mp h with hw | hw
  · simp only [act, hw]
  · simp only [act, hw]

theorem act_patient (h : s.isAwaiting = true) : s.act clock none = .rest s .inProgress := by
  rcases isAwaiting_iff.mp h with hw | hw
  · simp only [act, hw]
  · simp only [act, hw]

theorem step_act (hr : s.result = none) (ha : s.nAs.isRunning = false)
    (hb : s.nBs.exceeded clock Timing.flowControlLimit = false) (frame : Option Frame) :
    s.step clock frame = (s.notePace clock).act clock frame := by
  simp [step, hr, expired?, Stopwatch.exceeded_of_stopped ha, hb]

def advanced (s : Sender) (clock : Micros) : Sender :=
  { s with
    nAs := s.nAs.ensure clock
    nCs := s.nCs.stop clock
    offset := s.offset + s.chunk.length
    sequence := Pdu.nextSequence s.sequence
    framesInBlock := s.framesInBlock + 1
    lastFrameAt := some clock
    phase := .awaitConsecutiveAck }

theorem sendConsecutive_eq {f : Frame}
    (hf : Pdu.consecutiveFrame? s.address s.sequence s.chunk = some f)
    (hd : s.dueAt.any (clock < ·) = false) :
    ∃ next, s.sendConsecutive clock = .write f next ∧
      next true clock = (s.advanced clock, .inProgress) := by
  refine ⟨(s.sendConsecutive clock).finish, ?_, ?_⟩
  · simp only [sendConsecutive, hd, hf, transmit, Bool.false_eq_true, if_false]
    rfl
  · simp only [sendConsecutive, hd, hf, transmit, Bool.false_eq_true, if_false]
    rfl

theorem offset_advanced (hlt : s.offset < s.message.length) :
    s.offset < (s.advanced clock).offset ∧ (s.advanced clock).offset ≤ s.message.length ∧
      s.message.take (s.advanced clock).offset = s.message.take (s.offset + Pdu.chunkSize) := by
  have hc : s.chunk.length = min Pdu.chunkSize (s.message.length - s.offset) := by simp [chunk]
  have ho : (s.advanced clock).offset = min (s.offset + Pdu.chunkSize) s.message.length := by
    change s.offset + s.chunk.length = _
    rw [hc]
    omega
  have hpos : 0 < Pdu.chunkSize := by decide
  refine ⟨by omega, by omega, ?_⟩
  rw [ho, ← List.take_eq_take_min]

theorem onAck_last (hp : s.phase = .awaitConsecutiveAck) (hd : s.message.length ≤ s.offset) :
    s.onAck clock .success = { s with nAs := s.nAs.stop clock }.finish clock (.ok ()) := by
  unfold onAck
  rw [hp]
  exact if_pos hd

theorem onAck_block (hp : s.phase = .awaitConsecutiveAck) (hd : ¬ s.message.length ≤ s.offset)
    (hb : s.blockComplete = true) :
    s.onAck clock .success =
    { s with nAs := s.nAs.stop clock, nBs := .start clock, phase := .awaitFlow } := by
  unfold onAck
  rw [hp]
  exact (if_neg hd).trans (if_pos hb)

theorem onAck_more (hp : s.phase = .awaitConsecutiveAck) (hd : ¬ s.message.length ≤ s.offset)
    (hb : ¬ s.blockComplete = true) :
    s.onAck clock .success =
      { { s with nAs := s.nAs.stop clock }.startPace clock with phase := .sendConsecutive } := by
  unfold onAck
  rw [hp]
  exact (if_neg hd).trans (if_neg hb)

theorem offset_onAck (s : Sender) (clock : Micros) (ack : Ack) :
    (s.onAck clock ack).offset = s.offset := by
  unfold onAck
  split
  case h_5 =>
    dsimp only
    split
    · rfl
    · split <;> rfl
  all_goals rfl

theorem isFlowControl_go (address : Address) (blockSize : UInt8) (separation : SeparationTime) :
    isFlowControl (Pdu.flowControl address.reversed .continueToSend blockSize separation) =
      true := by
  have ht : (Pdu.flowControl address.reversed .continueToSend blockSize separation).id.targetType? =
      some .physical :=
    Address.targetType?_ofParts _ _ _
  have hk : (Pdu.flowControl address.reversed .continueToSend blockSize separation).pduType? =
      some .flowControl := rfl
  simp only [isFlowControl, ht, hk]
  rfl

theorem takeFlowControl_go (address : Address) (blockSize : UInt8) {separation : SeparationTime}
    (hv : separation.isValid = true) :
    s.takeFlowControl clock
        (Pdu.flowControl address.reversed .continueToSend blockSize separation) =
      .rest (s.resume clock blockSize separation) .inProgress := by
  have hs : FlowStatus.ofCode?
      (lowNibble ((Pdu.flowControl address.reversed .continueToSend blockSize separation).byte 0)) =
        some .continueToSend := by
    change FlowStatus.ofCode?
      (lowNibble (PduType.flowControl.code + FlowStatus.continueToSend.code)) = _
    rw [PduType.lowNibble_code_add _ (by decide), FlowStatus.ofCode?_code]
  have hb : (Pdu.flowControl address.reversed .continueToSend blockSize separation).byte 1 =
      blockSize := rfl
  have hst : (Pdu.flowControl address.reversed .continueToSend blockSize separation).byte 2 =
      separation.toByte := rfl
  rw [takeFlowControl, if_pos (isFlowControl_go _ _ _), hs, hb, hst,
    SeparationTime.ofByte_toByte hv]

end Sender

namespace Receiver

theorem step_act (hr : r.result = none) (ha : r.nAr.isRunning = false)
    (hc : r.nCr.exceeded clock Timing.consecutiveLimit = false) (frame : Option Frame) :
    r.step clock frame budget = (r.noteReply clock).act clock frame budget := by
  simp [step, hr, expired?, Stopwatch.exceeded_of_stopped ha, hc]

def absorbed (r : Receiver) (f : Frame) : Receiver :=
  { r with
    taken := r.taken ++ (f.payload.drop 1).take (r.expected - r.taken.length)
    sequence := Pdu.nextSequence r.sequence
    framesInBlock := r.framesInBlock + 1 }

def proceed (r : Receiver) (clock : Micros) : Receiver :=
  if r.expected ≤ r.taken.length then r.finish clock (.ok ())
  else if r.sentBlockSize ≠ 0 ∧
    r.sentBlockSize ≤ r.framesInBlock then { r with nCr := r.nCr.stop clock }.owe clock
  else { r with nCr := .start clock }

theorem proceed_keeps (r : Receiver) (clock : Micros) :
    (r.proceed clock).expected = r.expected ∧ (r.proceed clock).address = r.address := by
  unfold proceed
  split
  · exact ⟨rfl, rfl⟩
  · split
    · exact ⟨rfl, rfl⟩
    · exact ⟨rfl, rfl⟩

theorem consume_eq {f : Frame} (hk : f.pduType? = some .consecutiveFrame)
    (hl : lowNibble (f.byte 0) = r.sequence) :
    r.consume clock f = (r.absorbed f).proceed clock := by
  rw [consume, if_neg (by simp [hk]), if_neg (by simp [hl])]
  rfl

theorem onAck_flow (hp : r.phase = .awaitFlowAck) (hh : r.held = none) :
    r.onAck clock .success =
      { r with nAr := r.nAr.stop clock, nBr := .idle, nCr := .start clock, phase := .awaitConsecutive, held := none } := by
  simp [onAck, hp, hh]

end Receiver

namespace Asking

theorem sender_step (h : Asking address message clock s r) :
    s.step clock none = .rest (s.notePace clock) .inProgress := by
  have hw : (s.notePace clock).isAwaiting = true := Sender.isAwaiting_iff.mpr h.waits
  rw [Sender.step_act h.sending h.confirmed
    (h.since ▸ Stopwatch.exceeded_start (Nat.le_add_right _ _))]
  exact Sender.act_patient hw

theorem receiver_step (h : Asking address message clock s r) :
    r.step clock none budget = ((r.noteReply clock).sendFlow clock, budget) := by
  rw [Receiver.step_act h.receiving h.unsent (Stopwatch.exceeded_of_stopped h.unheard _ _)]
  have hp : (r.noteReply clock).phase = .sendFlow := h.owes
  simp [Receiver.act, hp]

theorem granted (h : Asking address message clock s r) (hl : clock ≤ later)
    (hr : later ≤ clock + longestRound) :
    ∃ next r', (∀ budget, r.step clock none budget =
      (.write (grant address (r'.onAck later .success)) next, budget)) ∧
      next true clock = (r', .inProgress) ∧ r'.expected = r.expected ∧
      Granted address message later (s.notePace clock) (r'.onAck later .success) := by
  refine ⟨((r.noteReply clock).sendFlow clock).finish,
    (((r.noteReply clock).sendFlow clock).finish true clock).1, fun budget => ?_, rfl, rfl, ?_⟩
  · rw [h.receiver_step, @Receiver.onAck_flow later
      (((r.noteReply clock).sendFlow clock).finish true clock).1 rfl h.held, ← h.target]
    rfl
  · rw [@Receiver.onAck_flow later (((r.noteReply clock).sendFlow clock).finish true clock).1 rfl
      h.held]
    exact {
      source := h.source
      message_eq := h.message_eq
      sending := h.sending
      target := h.target
      expected := h.expected
      receiving := h.receiving
      held := rfl
      unfinished := h.unfinished
      taken := h.taken
      sequence := h.sequence
      low := h.low
      pause := h.pause
      confirmed := h.confirmed
      waits := h.waits
      since := ⟨clock, h.since, hr⟩
      listens := rfl
      sent := rfl
      heard := rfl
      block := rfl
      sentPause := h.pause
      earlier := fun last hlast => Nat.le_trans (h.earlier last hlast) hl }

end Asking

namespace Granted

theorem sender_step (h : Granted address message clock s r) :
    s.step clock (some (grant address r)) =
      .rest ((s.notePace clock).resume clock r.sentBlockSize r.sentSeparation) .inProgress := by
  obtain ⟨since, hb, hlate⟩ := h.since
  have hlimit : s.nBs.exceeded clock Timing.flowControlLimit = false := by
    rw [hb]
    exact Stopwatch.exceeded_start (Nat.le_trans hlate (Nat.add_le_add_left (by decide) _))
  have ht : (s.notePace clock).takeFlowControl clock (grant address r) =
      .rest ((s.notePace clock).resume clock r.sentBlockSize r.sentSeparation) .inProgress :=
    Sender.takeFlowControl_go address _ h.sentPause
  have hw : (s.notePace clock).isAwaiting = true := Sender.isAwaiting_iff.mpr h.waits
  rw [Sender.step_act h.sending h.confirmed hlimit, ← ht]
  exact Sender.act_awaiting hw _

theorem receiver_step (h : Granted address message clock s r) :
    r.step clock none budget = (.rest (r.noteReply clock) .inProgress, budget) := by
  rw [Receiver.step_act h.receiving h.sent
    (h.heard ▸ Stopwatch.exceeded_start (Nat.le_add_right _ _))]
  have hp : (r.noteReply clock).phase = .awaitConsecutive := h.listens
  simp [Receiver.act, hp]

theorem flowing (h : Granted address message clock s r) (hr : later ≤ clock + longestRound) :
    Flowing address message later ((s.notePace clock).resume clock r.sentBlockSize r.sentSeparation)
      (r.noteReply clock) where
  source := h.source
  message_eq := h.message_eq
  sending := h.sending
  target := h.target
  expected := h.expected
  receiving := h.receiving
  held := h.held
  unfinished := h.unfinished
  taken := h.taken
  sequence := h.sequence
  low := h.low
  pause := h.pause
  confirmed := h.confirmed
  sends := rfl
  granted := rfl
  listens := h.listens
  sent := h.sent
  blockSize := rfl
  block := h.block
  sentPause := h.sentPause
  heard := ⟨clock, h.heard, Nat.le_trans hr (Nat.add_le_add_right (Nat.le_add_right _ _) _),
    h.earlier⟩

end Granted

/-- How the two stand after a frame, once the sender has heard of it. -/
inductive Onward (address : Address) (message : List UInt8) (clock : Micros)
    (s : Sender) (r : Receiver) : Prop
  | closed (done : ∀ later, Closed address message (s.onAck later .success))
      (result : r.result = some (.ok ())) (bytes : r.message = message)
  | asking (going : r.result = none)
      (next : ∀ later, clock ≤ later → Asking address message later (s.onAck later .success) r)
  | flowing (going : r.result = none)
      (next : ∀ later, clock ≤ later → later ≤ clock + longestRound →
        Flowing address message later (s.onAck later .success) r)

namespace Flowing

theorem within (h : Flowing address message clock s r) :
    r.nCr.exceeded clock Timing.consecutiveLimit = false := by
  obtain ⟨since, hc, hlate, -⟩ := h.heard
  have hp := SeparationTime.micros_le h.sentPause
  have hl : longestRound = 100 * 1000 := rfl
  rw [hc]
  refine Stopwatch.exceeded_start (Nat.le_trans hlate ?_)
  rw [hl, Nat.add_assoc]
  refine Nat.add_le_add_left (Nat.le_trans (Nat.add_le_add_right hp _) (by decide)) _

theorem receiver_rest (h : Flowing address message clock s r) :
    r.step clock none budget = (.rest (r.noteReply clock) .inProgress, budget) := by
  rw [Receiver.step_act h.receiving h.sent h.within]
  have hp : (r.noteReply clock).phase = .awaitConsecutive := h.listens
  simp [Receiver.act, hp]

/-- As long as the pause is kept, everything stays as it is. -/
theorem pausing (h : Flowing address message clock s r) (hd : s.dueAt.all (· ≤ clock) = false)
    (hr : later ≤ clock + longestRound) : Flowing address message later s (r.noteReply clock) := by
  obtain ⟨since, hc, -, hlast⟩ := h.heard
  refine { h with heard := ⟨since, hc, ?_, hlast⟩ }
  have hdue : s.dueAt = s.lastFrameAt.map (· + s.separation.micros) := by
    rw [Sender.dueAt, h.sends]
    cases s.lastFrameAt <;> rfl
  rw [hdue] at hd
  cases hl : s.lastFrameAt with
  | none => simp [hl] at hd
  | some last =>
    have hlt : clock < last + s.separation.micros := by simpa [hl] using hd
    have hle := hlast last hl
    exact Nat.le_trans hr
      (Nat.add_le_add_right (Nat.le_of_lt (Nat.lt_of_lt_of_le hlt (Nat.add_le_add_right hle _))) _)

theorem sender_send (h : Flowing address message clock s r) (hd : s.dueAt.all (· ≤ clock) = true) :
    ∃ f next, s.step clock none = .write f next ∧
      next true clock = ((s.notePace clock).advanced clock, .inProgress) ∧ f.id = address ∧
        f.isRelevant = true ∧ f.pduType? = some .consecutiveFrame ∧
        lowNibble (f.byte 0) = s.sequence ∧
      f.payload.drop 1 = s.chunk := by
  obtain ⟨f, hf, hid, hkind, hlow, hbytes⟩ :=
    Pdu.consecutiveFrame?_spec s.address s.sequence s.chunk (List.length_take_le _ _)
  have hdue : (s.notePace clock).dueAt.any (clock < ·) = false := by
    have he : (s.notePace clock).dueAt = s.dueAt := rfl
    rw [he]
    cases hv : s.dueAt with
    | none => rfl
    | some due => simpa [hv] using hd
  obtain ⟨next, hs, hn⟩ := Sender.sendConsecutive_eq (s := s.notePace clock) hf hdue
  refine ⟨f, next, ?_, hn, hid.trans h.source, Pdu.relevant_consecutiveFrame hf, hkind,
    hlow.trans h.low, hbytes⟩
  rw [Sender.step_act h.sending h.confirmed (Stopwatch.exceeded_of_stopped h.granted _ _), ← hs]
  have hp : (s.notePace clock).phase = .sendConsecutive := h.sends
  simp [Sender.act, hp]

theorem receiver_step (h : Flowing address message clock s r) {f : Frame}
    (hk : f.pduType? = some .consecutiveFrame) (hl : lowNibble (f.byte 0) = s.sequence)
    (budget : Budget) :
    r.step clock (some f) budget =
      ((((r.noteReply clock).absorbed f).proceed clock).settle, budget) := by
  rw [Receiver.step_act h.receiving h.sent h.within]
  have hp : (r.noteReply clock).phase = .awaitConsecutive := h.listens
  have hc : (r.noteReply clock).consume clock f = _ :=
    Receiver.consume_eq hk (hl.trans h.sequence.symm)
  simp only [Receiver.act, hp, hc]

theorem taken_absorbed (h : Flowing address message clock s r) {f : Frame}
    (hb : f.payload.drop 1 = s.chunk) :
    (r.absorbed f).taken = message.take (s.advanced clock).offset := by
  obtain rfl : s.message = message := h.message_eq
  obtain ⟨-, -, htake⟩ := @Sender.offset_advanced clock s h.unfinished
  change r.taken ++ (f.payload.drop 1).take (r.expected - r.taken.length) = _
  rw [hb, h.expected, h.taken, htake]
  exact Receiver.take_append_chunk h.unfinished

/-- After a frame the receiver is abreast of the sender again. -/
theorem abreast_absorbed (h : Flowing address message clock s r) {f : Frame}
    (hb : f.payload.drop 1 = s.chunk) (hmore : ¬ message.length ≤ (s.advanced clock).offset) :
    Abreast address message { s.advanced clock with nAs := (s.advanced clock).nAs.stop later }
      (r.absorbed f) where
  source := h.source
  message_eq := h.message_eq
  sending := h.sending
  target := h.target
  expected := h.expected
  receiving := h.receiving
  held := h.held
  unfinished := Nat.lt_of_not_le hmore
  taken := h.taken_absorbed hb
  sequence := congrArg Pdu.nextSequence h.sequence
  low := lowNibble_lowNibble _
  pause := h.pause
  confirmed := rfl

/-- How the two stand after a frame. -/
theorem onward (h : Flowing address message clock s r) {f : Frame}
    (hb : f.payload.drop 1 = s.chunk) :
    Onward address message clock (s.advanced clock) ((r.absorbed f).proceed clock) := by
  have ht : (r.absorbed f).taken = message.take (s.advanced clock).offset := h.taken_absorbed hb
  obtain ⟨-, hle, -⟩ := @Sender.offset_advanced clock s (h.message_eq ▸ h.unfinished)
  have hexpected : (r.absorbed f).expected = message.length := h.expected
  have hlength : (r.absorbed f).taken.length = (s.advanced clock).offset := by
    rw [ht, List.length_take, ← h.message_eq]
    exact Nat.min_eq_left hle
  have hall : (r.absorbed f).expected ≤ (r.absorbed f).taken.length ↔
      message.length ≤ (s.advanced clock).offset := by
    rw [hexpected, hlength]
  have hm : (s.advanced clock).message = message := h.message_eq
  have hphase : (s.advanced clock).phase = .awaitConsecutiveAck := rfl
  have hblock : ((r.absorbed f).sentBlockSize ≠ 0 ∧ (r.absorbed f).sentBlockSize ≤
      (r.absorbed f).framesInBlock) ↔ (s.advanced clock).blockComplete = true := by
    have hf : (r.absorbed f).framesInBlock = (s.advanced clock).framesInBlock :=
      congrArg (· + 1) h.block
    have hs : (r.absorbed f).sentBlockSize = (s.advanced clock).blockSize := h.blockSize
    rw [hf, hs]
    exact decide_eq_true_iff.symm
  unfold Receiver.proceed
  by_cases hdone : message.length ≤ (s.advanced clock).offset
  · rw [if_pos (hall.mpr hdone)]
    refine .closed (fun later => ?_) rfl ?_
    · rw [Sender.onAck_last hphase (hm ▸ hdone)]
      exact ⟨h.source, h.message_eq, rfl, rfl⟩
    · change (r.absorbed f).taken.take (r.absorbed f).expected = message
      rw [ht, hexpected, List.take_take, Nat.min_eq_left hdone, List.take_length]
  · rw [if_neg (mt hall.mp hdone)]
    by_cases hfull : (s.advanced clock).blockComplete = true
    · rw [if_pos (hblock.mpr hfull)]
      refine .asking h.receiving fun later hl => ?_
      rw [Sender.onAck_block hphase (hm ▸ hdone) hfull]
      exact {
        h.abreast_absorbed hb hdone with
        waits := .inr rfl
        since := rfl
        owes := rfl
        unsent := h.sent
        unheard := rfl
        earlier := fun last hlast => Option.some.inj hlast ▸ hl }
    · rw [if_neg (mt hblock.mp hfull)]
      refine .flowing h.receiving fun later hl hr => ?_
      rw [Sender.onAck_more hphase (hm ▸ hdone) hfull]
      exact {
        h.abreast_absorbed hb hdone with
        sends := rfl
        granted := h.granted
        listens := h.listens
        sent := h.sent
        blockSize := h.blockSize
        block := congrArg (· + 1) h.block
        sentPause := h.sentPause
        heard := ⟨clock, rfl, Nat.le_trans hr (Nat.add_le_add_right (Nat.le_add_right _ _) _),
          fun last hlast => Nat.le_of_eq (Option.some.inj hlast).symm⟩ }

end Flowing

end CanTransport
