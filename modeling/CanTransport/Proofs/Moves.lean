import CanTransport.Proofs.Dialogue
import CanTransport.Proofs.Emission

/-! # All that an endpoint can do

A step does one of a few things, and so does the news of an outcome. Each is written down here once,
with what brings it about, and what holds of every step is shown by going through the list.
-/
namespace CanTransport

namespace Sender
variable (s : Sender) (now : Micros) (frame : Option Frame)

def hears : Option FlowStatus :=
  if s.result = none ∧ s.expired? now = none ∧ s.isAwaiting = true then
    frame.bind fun f => if isFlowControl f then FlowStatus.ofCode? (lowNibble (f.byte 0)) else none
  else none

/-- The frame that a phase sends, and what becomes of the sender when it is taken. -/
inductive Sends : Frame → (Sender → Micros → Sender) → Prop
  | single {f : Frame} (phase : s.phase = .sendSingle)
      (frame : Pdu.singleFrame? s.address s.message = some f) :
      Sends f fun s _ => { s with offset := s.message.length, phase := .awaitSingleAck }
  | first {f : Frame} {carried : Nat} (phase : s.phase = .sendFirst)
      (frame : Pdu.firstFrame? s.address s.message = some (f, carried)) :
      Sends f fun s _ => { s with offset := carried, sequence := 1, phase := .awaitFirstAck }
  | consecutive {f : Frame} (phase : s.phase = .sendConsecutive)
      (frame : Pdu.consecutiveFrame? s.address s.sequence s.chunk = some f) :
      Sends f fun s after =>
        { s with
          nCs := s.nCs.stop after
          offset := s.offset + s.chunk.length
          sequence := Pdu.nextSequence s.sequence
          framesInBlock := s.framesInBlock + 1
          lastFrameAt := some after
          phase := .awaitConsecutiveAck }

inductive Fails : TransferError → Prop
  | unsendable (sends : s.phase = .sendSingle ∨ s.phase = .sendFirst ∨ s.phase = .sendConsecutive) :
    Fails .internal
  | unexpected {f : Frame} (input : frame = some f) (awaits : s.isAwaiting = true)
      (form : isFlowControl f = false) :
      Fails .unexpectedPdu
  | overflow (heard : s.hears now frame = some .overflow) :
      Fails (if s.phase = .awaitFirstFlow then .bufferOverflow else .invalidFlowStatus)
  | invalid {f : Frame} (input : frame = some f) (awaits : s.isAwaiting = true)
      (form : isFlowControl f = true) (status : FlowStatus.ofCode? (lowNibble (f.byte 0)) = none) :
    Fails .invalidFlowStatus

/-- What a step does. -/
inductive Does : Move Sender → Prop
  | closed {result : TransferResult} (latched : s.result = some result) :
    Does (.rest s (.finished result))
  | expires {error : TransferError} (running : s.result = none)
      (expired : s.expired? now = some error) :
      Does (s.fail now error)
  | fails {error : TransferError} (running : s.result = none) (timely : s.expired? now = none)
      (reason : s.Fails now frame error) : Does ((s.notePace now).fail now error)
  | offers {f : Frame} {accepted : Sender → Micros → Sender} (running : s.result = none)
      (timely : s.expired? now = none) (due : s.dueAt.any (now < ·) = false)
      (sends : s.Sends f accepted) :
      Does ((s.notePace now).transmit now f accepted)
  | pauses {due : Micros} (running : s.result = none) (timely : s.expired? now = none)
      (paced : s.dueAt = some due) (early : now < due) : Does (.rest (s.notePace now) .inProgress)
  | waits (running : s.result = none) (timely : s.expired? now = none)
      (idle : s.awaitsOutcome = true ∨ s.isAwaiting = true ∧ frame = none) :
    Does (.rest (s.notePace now) .inProgress)
  | resumes {f : Frame} (input : frame = some f)
      (heard : s.hears now frame = some .continueToSend) :
      Does (.rest ((s.notePace now).resume now (f.byte 1) (.ofByte (f.byte 2))) .inProgress)
  | postpones (heard : s.hears now frame = some .wait)
      (within : s.waitLimit.any (· < countWait s.waits) = false) :
      Does (.rest { s.notePace now with waits := countWait s.waits, nBs := .start now, phase := .awaitFlow } .inProgress)
  | overruns (heard : s.hears now frame = some .wait)
      (beyond : s.waitLimit.any (· < countWait s.waits) = true) :
      Does (fail { s.notePace now with waits := countWait s.waits } now .waitFrameOverrun)
  | stuck (running : s.result = none) (timely : s.expired? now = none)
      (ended : s.phase = .sent ∨ s.phase = .failed) :
      Does (.rest (s.notePace now) (.finished (.error .internal)))

variable {s now frame}

theorem timeout_of_expired? {error : TransferError} (h : s.expired? now = some error) :
    error = .timeoutA ∨ error = .timeoutBs := by
  unfold expired? at h
  split at h
  · cases h
    exact .inl rfl
  · split at h
    · cases h
      exact .inr rfl
    · cases h

theorem hears_some {f : Frame} (hr : s.result = none) (ht : s.expired? now = none)
    (ha : s.isAwaiting = true) (hf : isFlowControl f = true) :
    s.hears now (some f) = FlowStatus.ofCode? (lowNibble (f.byte 0)) := by
  rw [hears, if_pos ⟨hr, ht, ha⟩, Option.bind_some, if_pos hf]

theorem running_of_hears {status : FlowStatus} (h : s.hears now frame = some status) :
    s.result = none ∧ s.expired? now = none ∧ s.isAwaiting = true := by
  unfold hears at h
  split at h
  · assumption
  · cases h

theorem hears_eq_none (idle : s.isAwaiting = false) :
    s.hears now frame = none := if_neg (by simp [idle])

theorem flowControl_of_hears {status : FlowStatus} (h : s.hears now frame = some status) :
    ∃ f, frame = some f ∧ isFlowControl f = true ∧
      FlowStatus.ofCode? (lowNibble (f.byte 0)) = some status := by
  rw [hears, if_pos (running_of_hears h)] at h
  obtain ⟨f, rfl, hf⟩ := Option.bind_eq_some_iff.mp h
  split at hf
  · next form => exact ⟨f, rfl, form, hf⟩
  · cases hf

theorem Sends.phase {f : Frame} {accepted : Sender → Micros → Sender} (h : s.Sends f accepted) :
    s.phase = .sendSingle ∨ s.phase = .sendFirst ∨ s.phase = .sendConsecutive := by
  cases h with
  | single hp => exact .inl hp
  | first hp => exact .inr (.inl hp)
  | consecutive hp => exact .inr (.inr hp)

theorem Sends.unheard {f : Frame} {accepted : Sender → Micros → Sender} (h : s.Sends f accepted) :
    s.hears now frame = none :=
  hears_eq_none (by rcases h.phase with hp | hp | hp <;> simp [isAwaiting, hp])

theorem dueAt_eq {due : Micros} (h : s.dueAt = some due) : s.phase = .sendConsecutive := by
  unfold dueAt at h
  split at h
  · assumption
  · cases h

theorem unheard_of_dueAt {due : Micros} (h : s.dueAt = some due) : s.hears now frame = none :=
  hears_eq_none (by simp [isAwaiting, dueAt_eq h])

theorem unheard_of_idle (h : s.awaitsOutcome = true ∨ s.isAwaiting = true ∧ frame = none) :
    s.hears now frame = none := by
  rcases h with outcome | ⟨-, rfl⟩
  · refine hears_eq_none ?_
    cases hp : s.phase <;> simp_all [awaitsOutcome, isAwaiting]
  · rw [hears, Option.bind_none, ite_self]

theorem takeFlowControl_does {f : Frame} (hr : s.result = none) (ht : s.expired? now = none)
    (ha : s.isAwaiting = true) :
    s.Does now (some f) ((s.notePace now).takeFlowControl now f) := by
  unfold takeFlowControl
  split
  · next hform =>
    have heard := hears_some hr ht ha hform
    split
    · next status => exact .resumes rfl (heard.trans status)
    · next status =>
      unfold postpone
      dsimp only
      split
      · next beyond => exact .overruns (heard.trans status) beyond
      · next within => exact .postpones (heard.trans status) (Bool.of_not_eq_true within)
    · next status => exact .fails hr ht (.overflow (heard.trans status))
    · next status => exact .fails hr ht (.invalid rfl ha hform status)
  · next hform => exact .fails hr ht (.unexpected rfl ha (by simpa using hform))

theorem step_does (s : Sender) (now : Micros) (frame : Option Frame) :
    s.Does now frame (s.step now frame) := by
  unfold step
  split
  · next latched => exact .closed latched
  · next hr =>
    split
    · next expired => exact .expires hr expired
    · next ht =>
      unfold act
      split
      · next hp =>
        unfold sendSingle
        split
        · exact .fails hr ht (.unsendable (.inl hp))
        · next hf => exact .offers hr ht (by simp [dueAt, show s.phase = _ from hp]) (.single hp hf)
      · next hp =>
        unfold sendFirst
        split
        · exact .fails hr ht (.unsendable (.inr (.inl hp)))
        · next hf => exact .offers hr ht (by simp [dueAt, show s.phase = _ from hp]) (.first hp hf)
      · next hp =>
        unfold sendConsecutive
        split
        · next early =>
          obtain ⟨due, paced, early⟩ := (Option.any_eq_true _ _).mp early
          exact .pauses hr ht paced (by simpa using early)
        · next due =>
          split
          · exact .fails hr ht (.unsendable (.inr (.inr hp)))
          · next hf => exact .offers hr ht (Bool.of_not_eq_true due) (.consecutive hp hf)
      · next hp => exact takeFlowControl_does hr ht (isAwaiting_iff.mpr (.inl hp))
      · next hp => exact takeFlowControl_does hr ht (isAwaiting_iff.mpr (.inr hp))
      · next hp =>
        rw [show (s.notePace now).result = none from hr]
        exact .stuck hr ht (.inl hp)
      · next hp =>
        rw [show (s.notePace now).result = none from hr]
        exact .stuck hr ht (.inr hp)
      · next h₁ h₂ h₃ h₄ h₅ h₆ h₇ =>
        refine .waits hr ht ?_
        cases hp : s.phase with
        | awaitSingleAck | awaitFirstAck | awaitConsecutiveAck =>
          exact .inl (by simp only [awaitsOutcome, hp])
        | awaitFirstFlow =>
          exact .inr ⟨isAwaiting_iff.mpr (.inl hp), Option.eq_none_iff_forall_ne_some.mpr fun f =>
            h₆ f hp⟩
        | awaitFlow =>
          exact .inr ⟨isAwaiting_iff.mpr (.inr hp), Option.eq_none_iff_forall_ne_some.mpr fun f =>
            h₇ f hp⟩
        | sendSingle => exact absurd hp h₁
        | sendFirst => exact absurd hp h₂
        | sendConsecutive => exact absurd hp h₃
        | sent => exact absurd hp h₄
        | failed => exact absurd hp h₅

variable (s now)

/-- What the news of an outcome does. -/
inductive Learns : Ack → Sender → Prop
  | closed {ack : Ack} (ended : s.phase = .sent ∨ s.phase = .failed) : Learns ack s
  | fails {ack : Ack} (open_ : s.phase ≠ .sent ∧ s.phase ≠ .failed)
      (unwanted : ack = .failure ∨ s.awaitsOutcome = false) :
      Learns ack (s.finish now (.error .internal))
  | single (phase : s.phase = .awaitSingleAck) :
      Learns .success (finish { s with nAs := s.nAs.stop now, nCs := .idle } now (.ok ()))
  | first (phase : s.phase = .awaitFirstAck) :
      Learns .success
        { s with nAs := s.nAs.stop now, nCs := .idle, nBs := .start now, phase := .awaitFirstFlow }
  | last (phase : s.phase = .awaitConsecutiveAck) (whole : s.message.length ≤ s.offset) :
      Learns .success (finish { s with nAs := s.nAs.stop now } now (.ok ()))
  | block (phase : s.phase = .awaitConsecutiveAck) (more : ¬ s.message.length ≤ s.offset)
      (full : s.blockComplete = true) :
      Learns .success { s with nAs := s.nAs.stop now, nBs := .start now, phase := .awaitFlow }
  | next (phase : s.phase = .awaitConsecutiveAck) (more : ¬ s.message.length ≤ s.offset)
      (room : s.blockComplete = false) :
      Learns .success
        { startPace { s with nAs := s.nAs.stop now } now with phase := .sendConsecutive }

theorem onAck_learns (ack : Ack) : s.Learns now ack (s.onAck now ack) := by
  unfold onAck
  split
  · next hp => exact .closed (.inl hp)
  · next hp => exact .closed (.inr hp)
  · next hp => exact .single hp
  · next hp => exact .first hp
  · next hp =>
    dsimp only
    split
    · next whole => exact .last hp whole
    · next more =>
      split
      · next full => exact .block hp more full
      · next room => exact .next hp more (Bool.of_not_eq_true room)
  · next ack _ _ h₁ h₂ h₃ h₄ h₅ =>
    refine .fails ⟨h₁, h₂⟩ ?_
    cases ack with
    | failure => exact .inl rfl
    | success =>
      refine .inr ?_
      cases hp : s.phase with
      | awaitSingleAck => exact absurd rfl (h₃ hp)
      | awaitFirstAck => exact absurd rfl (h₄ hp)
      | awaitConsecutiveAck => exact absurd rfl (h₅ hp)
      | _ => simp only [awaitsOutcome, hp]

end Sender

namespace Receiver
variable (r : Receiver) (now : Micros)

/-- What a consecutive frame does. -/
inductive Consumes (f : Frame) : Receiver → Prop
  | unexpected (kind : f.pduType? ≠ some .consecutiveFrame) :
    Consumes f (r.finish now (.error .unexpectedPdu))
  | misplaced (kind : f.pduType? = some .consecutiveFrame)
      (number : lowNibble (f.byte 0) ≠ r.sequence) :
      Consumes f (r.finish now (.error .wrongSequenceNumber))
  | last (kind : f.pduType? = some .consecutiveFrame) (number : lowNibble (f.byte 0) = r.sequence)
      (whole : (r.absorbed f).expected ≤ (r.absorbed f).taken.length) :
    Consumes f ((r.absorbed f).finish now (.ok ()))
  | block (kind : f.pduType? = some .consecutiveFrame) (number : lowNibble (f.byte 0) = r.sequence)
      (more : ¬ (r.absorbed f).expected ≤ (r.absorbed f).taken.length)
      (full : r.sentBlockSize ≠ 0 ∧ r.sentBlockSize ≤ r.framesInBlock + 1) :
      Consumes f (owe { r.absorbed f with nCr := r.nCr.stop now } now)
  | next (kind : f.pduType? = some .consecutiveFrame) (number : lowNibble (f.byte 0) = r.sequence)
      (more : ¬ (r.absorbed f).expected ≤ (r.absorbed f).taken.length)
      (room : ¬(r.sentBlockSize ≠ 0 ∧ r.sentBlockSize ≤ r.framesInBlock + 1)) :
      Consumes f { r.absorbed f with nCr := .start now }

theorem consume_consumes (f : Frame) : r.Consumes now f (r.consume now f) := by
  by_cases kind : f.pduType? = some .consecutiveFrame
  · by_cases number : lowNibble (f.byte 0) = r.sequence
    · rw [consume_eq kind number]
      unfold proceed
      split
      · next whole => exact .last kind number whole
      · next more =>
        split
        · next full => exact .block kind number more full
        · next room => exact .next kind number more room
    · rw [consume, if_neg (by simp [kind]), if_pos number]
      exact .misplaced kind number
  · rw [consume, if_pos kind]
    exact .unexpected kind

variable (frame : Option Frame) (budget : Budget)

def whole (f : Frame) : Receiver :=
  { r with
    expected := (lowNibble (f.byte 0)).toNat
    taken := (f.payload.drop 1).take (lowNibble (f.byte 0)).toNat }

def opened (f : Frame) (length offset : Nat) : Receiver :=
  { r with expected := length, taken := (f.payload.drop offset).take length, sequence := 1 }

theorem length_whole {f : Frame} (carried : (lowNibble (f.byte 0)).toNat + 1 ≤ f.payload.length) :
    (r.whole f).taken.length = (r.whole f).expected := by
  change ((f.payload.drop 1).take (lowNibble (f.byte 0)).toNat).length =
    (lowNibble (f.byte 0)).toNat
  rw [List.length_take, List.length_drop]
  omega

inductive Unfit (f : Frame) : Prop
  | kind (single : f.pduType? ≠ some .singleFrame) (first : f.pduType? ≠ some .firstFrame) : Unfit f
  | length (kind : f.pduType? = some .singleFrame)
      (length : Pdu.singleLimit < (lowNibble (f.byte 0)).toNat ∨ f.payload.length <
        (lowNibble (f.byte 0)).toNat + 1) :
      Unfit f
  | unpaid {error : BudgetError} (kind : f.pduType? = some .singleFrame)
      (refused : budget.reserve (lowNibble (f.byte 0)).toNat = .error error) : Unfit f
  | form (kind : f.pduType? = some .firstFrame) (form : r.address.isFunctional = true ∨ f.dlc ≠ 8) :
    Unfit f
  | unannounced (kind : f.pduType? = some .firstFrame)
      (announced : Pdu.announced? f.payload = none) : Unfit f
  | short {length offset : Nat} (kind : f.pduType? = some .firstFrame)
      (announced : Pdu.announced? f.payload = some (length, offset))
      (short : length ≤ Pdu.singleLimit) : Unfit f

/-- What a step does. -/
inductive Does : Move Receiver × Budget → Prop
  | closed {result : TransferResult} (latched : r.result = some result) :
    Does (.rest r (.finished result), budget)
  | expires {error : TransferError} (running : r.result = none)
      (expired : r.expired? now = some error) :
      Does (r.fail now error, budget)
  | fails {error : TransferError} (running : r.result = none) (timely : r.expired? now = none)
      (phase : r.phase = .fresh) (unfit : ∀ f, frame = some f → r.Unfit budget f) :
    Does ((r.noteReply now).fail now error, budget)
  | rejects {f : Frame} {length offset : Nat} {error : BudgetError} (running : r.result = none)
      (timely : r.expired? now = none) (phase : r.phase = .fresh) (input : frame = some f)
      (kind : f.pduType? = some .firstFrame)
      (announced : Pdu.announced? f.payload = some (length, offset))
      (refused : budget.reserve length = .error error) :
      Does ((r.noteReply now).reject now, budget)
  | single {f : Frame} {rest : Budget} (running : r.result = none) (timely : r.expired? now = none)
      (phase : r.phase = .fresh) (input : frame = some f) (kind : f.pduType? = some .singleFrame)
      (short : (lowNibble (f.byte 0)).toNat ≤ Pdu.singleLimit)
      (carried : (lowNibble (f.byte 0)).toNat + 1 ≤ f.payload.length)
      (reserved : budget.reserve (lowNibble (f.byte 0)).toNat = .ok rest) :
      Does ((((r.noteReply now).whole f).finish now (.ok ())).settle, rest)
  | first {f : Frame} {length offset : Nat} {rest : Budget} (running : r.result = none)
      (timely : r.expired? now = none) (phase : r.phase = .fresh) (input : frame = some f)
      (kind : f.pduType? = some .firstFrame) (physical : r.address.isFunctional = false)
      (full : f.dlc = 8) (announced : Pdu.announced? f.payload = some (length, offset))
      (long : Pdu.singleLimit < length) (reserved : budget.reserve length = .ok rest) :
      Does (.rest (((r.noteReply now).opened f length offset).owe now) (.firstFrame length), rest)
  | offers (running : r.result = none) (timely : r.expired? now = none)
      (phase : r.phase = .sendFlow) :
      Does ((r.noteReply now).sendFlow now, budget)
  | holds {f : Frame} (running : r.result = none) (timely : r.expired? now = none)
      (phase : r.phase = .awaitFlowAck) (input : frame = some f) :
    Does (.rest ((r.noteReply now).hold f) .inProgress, budget)
  | consumes {f : Frame} (running : r.result = none) (timely : r.expired? now = none)
      (phase : r.phase = .awaitConsecutive) (input : frame = some f) :
    Does (((r.noteReply now).consume now f).settle, budget)
  | waits (running : r.result = none) (timely : r.expired? now = none)
      (phase : r.phase = .awaitFlowAck ∨ r.phase = .awaitConsecutive) (input : frame = none) :
      Does (.rest (r.noteReply now) .inProgress, budget)
  | stuck (running : r.result = none) (timely : r.expired? now = none)
      (ended : r.phase = .received ∨ r.phase = .failed) :
      Does (.rest (r.noteReply now) (.finished (.error .internal)), budget)

variable {r now}

theorem timeout_of_expired? {error : TransferError} (h : r.expired? now = some error) :
    error = .timeoutA ∨ error = .timeoutCr := by
  unfold expired? at h
  split at h
  · cases h
    exact .inl rfl
  · split at h
    · cases h
      exact .inr rfl
    · cases h

theorem openWith_does {f : Frame} (hr : r.result = none) (ht : r.expired? now = none)
    (hp : r.phase = .fresh) :
    r.Does now (some f) budget ((r.noteReply now).openWith now f budget) := by
  have fails {error : TransferError} (unfit : r.Unfit budget f) :
      r.Does now (some f) budget ((r.noteReply now).fail now error, budget) :=
    .fails hr ht hp fun _ h => Option.some.inj h ▸ unfit
  unfold openWith
  split
  · next kind =>
    unfold takeSingle
    dsimp only
    split
    · next length => exact fails (.length kind length)
    · next fits =>
      obtain ⟨short, carried⟩ := not_or.mp fits
      split
      · next refused => exact fails (.unpaid kind refused)
      · next reserved =>
          exact .single hr ht hp rfl kind (Nat.le_of_not_lt short)
            (Nat.le_of_not_lt carried) reserved
  · next kind =>
    unfold takeFirst
    split
    · next form => exact fails (.form kind form)
    · next suits =>
      obtain ⟨physical, full⟩ := not_or.mp suits
      split
      · next announced => exact fails (.unannounced kind announced)
      · next announced =>
        split
        · next short => exact fails (.short kind announced short)
        · next long =>
          split
          · next refused => exact .rejects hr ht hp rfl kind announced refused
          · next reserved =>
            exact .first hr ht hp rfl kind (Bool.of_not_eq_true physical)
              (Decidable.not_not.mp full) announced (Nat.lt_of_not_le long) reserved
  · next single first => exact fails (.kind single first)

variable (r now)

theorem step_does : r.Does now frame budget (r.step now frame budget) := by
  unfold step
  split
  · next latched => exact .closed latched
  · next hr =>
    split
    · next expired => exact .expires hr expired
    · next ht =>
      unfold act
      split
      · next hp => exact openWith_does budget hr ht hp
      · next hp => exact .fails hr ht hp fun _ h => by cases h
      · next hp => exact .offers hr ht hp
      · next hp => exact .holds hr ht hp rfl
      · next hp => exact .consumes hr ht hp rfl
      · next hp =>
        rw [show (r.noteReply now).result = none from hr]
        exact .stuck hr ht (.inl hp)
      · next hp =>
        rw [show (r.noteReply now).result = none from hr]
        exact .stuck hr ht (.inr hp)
      · next h₁ h₂ h₃ h₄ =>
        refine .waits hr ht ?_ rfl
        cases hp : r.phase with
        | awaitFlowAck => exact .inl rfl
        | awaitConsecutive => exact .inr rfl
        | fresh => exact absurd hp h₁
        | sendFlow => exact absurd hp h₂
        | received => exact absurd hp h₃
        | failed => exact absurd hp h₄

def confirmed : Receiver :=
  { r with nAr := r.nAr.stop now, nBr := .idle, nCr := .start now, phase := .awaitConsecutive, held := none }

inductive Learns : Ack → Receiver → Prop
  | closed {ack : Ack} (ended : r.phase = .received ∨ r.phase = .failed) : Learns ack r
  | fails (open_ : r.phase ≠ .received ∧ r.phase ≠ .failed) :
    Learns .failure (r.finish now (.error .internal))
  | unasked (open_ : r.phase ≠ .received ∧ r.phase ≠ .failed) (phase : r.phase ≠ .awaitFlowAck) :
    Learns .success r
  | confirmed (phase : r.phase = .awaitFlowAck) (held : r.held = none) :
    Learns .success (r.confirmed now)
  | replays {f : Frame} (phase : r.phase = .awaitFlowAck) (held : r.held = some f) :
      Learns .success ((r.confirmed now).consume now f)

theorem onAck_learns (ack : Ack) : r.Learns now ack (r.onAck now ack) := by
  unfold onAck
  split
  · next hp => exact .closed (.inl hp)
  · next hp => exact .closed (.inr hp)
  · next hp =>
    dsimp only
    split
    · next held => exact .replays hp held
    · next held => exact .confirmed hp held
  · next h₁ h₂ => exact .fails ⟨h₁, h₂⟩
  · next h₁ h₂ h₃ => exact .unasked ⟨h₁, h₂⟩ h₃

end Receiver
end CanTransport
