import CanTransport.Endpoint.Sender
import CanTransport.Proofs.Segmentation

/-! # What a sender puts on the bus

Whatever frames, outcomes and refusals a sender meets, the frames accepted from it are the beginning
of its message's segmentation, and all of it once the transfer has succeeded.
-/
namespace CanTransport

namespace Sender

/-- Waits for the outcome of the frame written last. -/
def awaitsOutcome (s : Sender) : Bool :=
  match s.phase with
  | .awaitSingleAck | .awaitFirstAck | .awaitConsecutiveAck => true
  | _ => false

def isUnderWay (s : Sender) : Bool :=
  match s.phase with
  | .awaitFirstAck | .awaitFirstFlow | .awaitFlow | .sendConsecutive => true
  | _ => false

/-- Frames that the controller has still to accept. -/
def remaining (s : Sender) : List Frame :=
  match s.phase with
  | .sendSingle | .sendFirst => Pdu.segmentation s.address s.message
  | .awaitSingleAck | .sent | .failed => []
  | _ => Pdu.consecutiveFrames s.address s.sequence (s.message.drop s.offset)

/-- A sender as it stands once `sent` has been accepted from it. -/
structure Emitted (s : Sender) (sent : List Frame) : Prop where
  begins : sent <+: Pdu.segmentation s.address s.message
  rest : s.phase ≠ .failed → sent ++ s.remaining = Pdu.segmentation s.address s.message
  running : s.result = none ↔ s.phase ≠ .sent ∧ s.phase ≠ .failed
  succeeded : s.result = some (.ok ()) ↔ s.phase = .sent
  fits : s.phase = .sendSingle → s.message.length ≤ Pdu.singleLimit
  segmented : s.phase = .sendFirst → Pdu.singleLimit < s.message.length ∧
    s.message.length < Pdu.lengthLimit
  unfinished : s.isUnderWay = true → s.offset < s.message.length

variable {s : Sender} {sent : List Frame} {now after : Micros}

theorem emitted_of_create {address : Address} {message : List UInt8} {kind : MessageType}
    {waitLimit : Option UInt8} {budget rest : Budget}
    (h : create address message kind waitLimit budget = .ok (s, rest)) : s.Emitted [] := by
  rw [create] at h
  split at h
  · cases h
  · next hf =>
    split at h
    · cases h
    · next hl =>
      split at h
      · cases h
      · cases h
        by_cases hs : message.length ≤ Pdu.singleLimit
        · constructor <;> simp [remaining, isUnderWay, hs]
        · constructor <;> simp [remaining, isUnderWay, hs]
          omega

theorem Emitted.fail (h : s.Emitted sent) (now : Micros) (error : TransferError) :
    (s.finish now (.error error)).Emitted sent where
  begins := h.begins
  rest hp := absurd rfl hp
  running := by simp [finish]
  succeeded := by simp [finish]
  fits hp := by simp [finish] at hp
  segmented hp := by simp [finish] at hp
  unfinished hp := by simp [finish, isUnderWay] at hp

theorem Emitted.congr {s' : Sender} (h : s.Emitted sent) (ha : s'.address = s.address)
    (hm : s'.message = s.message) (hp : s'.phase = s.phase) (ho : s'.offset = s.offset)
    (hs : s'.sequence = s.sequence) (hr : s'.result = s.result) : s'.Emitted sent := by
  have hrem : s'.remaining = s.remaining := by simp only [remaining, ha, hm, hp, ho, hs]
  constructor
  case begins => simpa only [ha, hm] using h.begins
  case rest => simpa only [ha, hm, hp, hrem] using h.rest
  case running => simpa only [hp, hr] using h.running
  case succeeded => simpa only [hp, hr] using h.succeeded
  case fits => simpa only [hm, hp] using h.fits
  case segmented => simpa only [hm, hp] using h.segmented
  case unfinished => simpa only [isUnderWay, hm, hp, ho] using h.unfinished

theorem Emitted.proceed {s' : Sender} (h : s.Emitted sent) (ha : s'.address = s.address)
    (hm : s'.message = s.message) (hrem : s'.remaining = s.remaining) (hrun : s.result = none)
    (hr : s'.result = none) (hp : s'.phase ≠ .sent ∧ s'.phase ≠ .failed)
    (hs : s'.phase ≠ .sendSingle ∧ s'.phase ≠ .sendFirst)
    (ho : s'.isUnderWay = true → s'.offset < s'.message.length) : s'.Emitted sent := by
  constructor
  case begins => simpa only [ha, hm] using h.begins
  case rest =>
    intro _
    rw [ha, hm, hrem]
    exact h.rest (h.running.mp hrun).2
  case running => simp [hr, hp]
  case succeeded => simp [hr, hp]
  case fits =>
    intro he
    exact absurd he hs.1
  case segmented =>
    intro he
    exact absurd he hs.2
  case unfinished => exact ho

/-- An accepted frame is the first of those remaining. -/
theorem Emitted.accept {s' : Sender} {f : Frame} (h : s.Emitted sent) (ha : s'.address = s.address)
    (hm : s'.message = s.message) (hrem : s.remaining = f :: s'.remaining) (hrun : s.result = none)
    (hr : s'.result = none) (hp : s'.awaitsOutcome = true)
    (ho : s'.isUnderWay = true → s'.offset < s'.message.length) : s'.Emitted (sent ++ [f]) := by
  have hall : (sent ++ [f]) ++ s'.remaining = Pdu.segmentation s'.address s'.message := by
    rw [ha, hm, ← h.rest (h.running.mp hrun).2, hrem, List.append_assoc]
    rfl
  constructor
  · exact ⟨_, hall⟩
  · intro _
    exact hall
  all_goals
    cases hc : s'.phase <;> simp_all [awaitsOutcome]

theorem Emitted.complete (h : s.Emitted sent) (hrun : s.result = none) (hr : s.remaining = [])
    (now : Micros) :
    (s.finish now (.ok ())).Emitted sent where
  begins := h.begins
  rest _ := by
    have hall := h.rest (h.running.mp hrun).2
    rwa [hr] at hall
  running := by simp [finish]
  succeeded := by simp [finish]
  fits hp := by simp [finish] at hp
  segmented hp := by simp [finish] at hp
  unfinished hp := by simp [finish, isUnderWay] at hp

theorem Emitted.settled {s' : Sender} {outcome : StepOutcome} (h : s'.Emitted sent)
    (accepted : Bool) (after : Micros) : ((Move.rest s' outcome).finish accepted after).1.Emitted
      (sent ++ (Move.rest s' outcome).written accepted) := by
  rwa [Move.written_rest, List.append_nil]

theorem transmit_emitted {f : Frame} {next : Sender → Micros → Sender} (h : s.Emitted sent)
    (hn : (next { s with nAs := s.nAs.ensure now } after).Emitted (sent ++ [f])) (accepted : Bool) :
    ((s.transmit now f next).finish accepted after).1.Emitted
      (sent ++ (s.transmit now f next).written accepted) := by
  cases accepted with
  | true => simpa [transmit] using hn
  | false => 
    have hw : { s with nAs := s.nAs.ensure now }.Emitted sent := h.congr rfl rfl rfl rfl rfl rfl
    simpa [transmit] using hw

theorem sendSingle_emitted (h : s.Emitted sent) (hp : s.phase = .sendSingle) (accepted : Bool) :
    ((s.sendSingle now).finish accepted after).1.Emitted
      (sent ++ (s.sendSingle now).written accepted) := by
  obtain ⟨f, hf, -⟩ := Pdu.singleFrame?_spec s.address (h.fits hp)
  have hr : s.remaining = [f] := by rw [remaining, hp, Pdu.segmentation_of_single hf]
  have hrun : s.result = none := h.running.mpr (by simp [hp])
  rw [sendSingle, hf]
  exact transmit_emitted h (h.accept rfl rfl hr hrun hrun rfl (by simp [isUnderWay])) accepted

theorem sendFirst_emitted (h : s.Emitted sent) (hp : s.phase = .sendFirst) (accepted : Bool) :
    ((s.sendFirst now).finish accepted after).1.Emitted
      (sent ++ (s.sendFirst now).written accepted) := by
  obtain ⟨hs, hl⟩ := h.segmented hp
  obtain ⟨f, hf, -⟩ := Pdu.firstFrame?_spec s.address hs hl
  have hr : s.remaining = f :: Pdu.consecutiveFrames s.address 1
      (s.message.drop (Pdu.carried s.message.length)) := by
    rw [remaining, hp, Pdu.segmentation_of_first hs hf]
  have hrun : s.result = none := h.running.mpr (by simp [hp])
  rw [sendFirst, hf]
  exact transmit_emitted h (h.accept rfl rfl hr hrun hrun rfl fun _ => Pdu.carried_lt hs) accepted

theorem sendConsecutive_emitted (h : s.Emitted sent) (hp : s.phase = .sendConsecutive)
    (accepted : Bool) :
    ((s.sendConsecutive now).finish accepted after).1.Emitted
      (sent ++ (s.sendConsecutive now).written accepted) := by
  have hlt : s.offset < s.message.length := h.unfinished (by simp [isUnderWay, hp])
  have hne : s.message.drop s.offset ≠ [] := by simpa using hlt
  obtain ⟨f, hf, -⟩ :=
    Pdu.consecutiveFrame?_spec s.address s.sequence s.chunk (List.length_take_le _ _)
  have hr : s.remaining = f :: Pdu.consecutiveFrames s.address (Pdu.nextSequence s.sequence)
      (s.message.drop (s.offset + s.chunk.length)) := by
    have hdrop : (s.message.drop s.offset).drop Pdu.chunkSize =
        s.message.drop (s.offset + s.chunk.length) := by
      rw [chunk, List.length_take, List.drop_drop, List.length_drop]
      rcases Nat.le_total Pdu.chunkSize (s.message.length - s.offset) with hc | hc
      · rw [Nat.min_eq_left hc]
      · rw [Nat.min_eq_right hc, List.drop_eq_nil_of_le (by omega),
          List.drop_eq_nil_of_le (by omega)]
    simp only [remaining, hp]
    rw [Pdu.consecutiveFrames_cons hne hf, hdrop]
  have hrun : s.result = none := h.running.mpr (by simp [hp])
  unfold sendConsecutive
  split
  · exact h.settled accepted after
  · rw [hf]
    exact transmit_emitted h (h.accept rfl rfl hr hrun hrun rfl (by simp [isUnderWay])) accepted

/-- Flow control lets the next frame go, keeps the sender waiting or ends the transfer. -/
theorem takeFlowControl_emitted {frame : Frame} (h : s.Emitted sent)
    (hp : s.phase = .awaitFirstFlow ∨ s.phase = .awaitFlow) (accepted : Bool) :
    ((s.takeFlowControl now frame).finish accepted after).1.Emitted
      (sent ++ (s.takeFlowControl now frame).written accepted) := by
  have hrun : s.result = none := h.running.mpr (by rcases hp with hp | hp <;> simp [hp])
  have hlt : s.offset < s.message.length :=
    h.unfinished (by rcases hp with hp | hp <;> simp [isUnderWay, hp])
  have hr : s.remaining = Pdu.consecutiveFrames s.address s.sequence (s.message.drop s.offset) := by
    rcases hp with hp | hp <;> simp only [remaining, hp]
  unfold takeFlowControl
  split
  · split
    · refine Emitted.settled ?_ accepted after
      exact h.proceed rfl rfl hr.symm hrun hrun (by simp [resume, startPace])
        (by simp [resume, startPace])
        fun _ => hlt
    · unfold postpone
      simp only
      split
      · have hw : { s with waits := countWait s.waits }.Emitted sent :=
          h.congr rfl rfl rfl rfl rfl rfl
        exact (hw.fail now _).settled accepted after
      · refine Emitted.settled ?_ accepted after
        exact h.proceed rfl rfl hr.symm hrun hrun (by simp) (by simp) fun _ => hlt
    · exact (h.fail now _).settled accepted after
    · exact (h.fail now _).settled accepted after
  · exact (h.fail now _).settled accepted after

/-- A step keeps what has been sent, and adds its frame if that is accepted. -/
theorem step_emitted {frame : Option Frame} (h : s.Emitted sent) (accepted : Bool) :
    ((s.step now frame).finish accepted after).1.Emitted
      (sent ++ (s.step now frame).written accepted) := by
  have hn : (s.notePace now).Emitted sent := h.congr rfl rfl rfl rfl rfl rfl
  unfold step
  split
  · exact h.settled accepted after
  · split
    · exact (h.fail now _).settled accepted after
    · unfold act
      split
      · next hp => exact sendSingle_emitted hn hp accepted
      · next hp => exact sendFirst_emitted hn hp accepted
      · next hp => exact sendConsecutive_emitted hn hp accepted
      · next hp => exact takeFlowControl_emitted hn (.inl hp) accepted
      · next hp => exact takeFlowControl_emitted hn (.inr hp) accepted
      all_goals exact hn.settled accepted after

theorem onAck_emitted (h : s.Emitted sent) (now : Micros) (ack : Ack) :
    (s.onAck now ack).Emitted sent := by
  have running {p : SenderPhase} (hp : s.phase = p) (hs : p ≠ .sent ∧ p ≠ .failed) : s.result =
      none :=
    h.running.mpr (hp ▸ hs)
  unfold onAck
  split
  · exact h
  · exact h
  · next hp =>
    have hrun := running hp (by decide)
    have hw : { s with nAs := s.nAs.stop now, nCs := .idle }.Emitted sent :=
      h.congr rfl rfl rfl rfl rfl rfl
    exact hw.complete hrun (by simp [remaining, hp]) now
  · next hp =>
    have hrun := running hp (by decide)
    have hlt := h.unfinished (by simp [isUnderWay, hp])
    exact h.proceed rfl rfl (by simp [remaining, hp]) hrun hrun (by simp) (by simp) fun _ => hlt
  · next hp =>
    have hrun := running hp (by decide)
    have hw : { s with nAs := s.nAs.stop now }.Emitted sent := h.congr rfl rfl rfl rfl rfl rfl
    simp only
    split
    · next hle =>
      refine hw.complete hrun ?_ now
      simp [remaining, hp, List.drop_eq_nil_of_le hle]
    · next hlt =>
      have hlt := Nat.lt_of_not_le hlt
      split
      · exact hw.proceed rfl rfl (by simp [remaining, hp]) hrun hrun (by simp) (by simp) fun _ =>
          hlt
      · exact hw.proceed rfl rfl (by simp [remaining, hp, startPace]) hrun hrun (by simp)
          (by simp) fun _ => hlt
  · exact h.fail now _

/-- Between the first frame and the end, bytes are left to be sent as long as frames are. -/
theorem Emitted.offset_lt_iff (h : s.Emitted sent)
    (hp : s.isUnderWay = true ∨ s.phase = .awaitConsecutiveAck) :
    s.offset < s.message.length ↔ sent.length < (Pdu.segmentation s.address s.message).length := by
  have hrem : s.remaining = Pdu.consecutiveFrames s.address s.sequence
      (s.message.drop s.offset) := by
    cases hph : s.phase <;> simp_all [isUnderWay, remaining]
  have hne : s.phase ≠ .failed := by
    rintro hf
    simp [isUnderWay, hf] at hp
  have hall := h.rest hne
  have hpos : 0 < s.remaining.length ↔ s.offset < s.message.length := by
    rw [hrem, Pdu.lt_length_consecutiveFrames, List.length_drop]
    omega
  rw [← hall, List.length_append, ← hpos]
  omega

def subject (s : Sender) : Address × List UInt8 × MessageType := (s.address, s.message, s.kind)

theorem subject_create {address : Address} {message : List UInt8} {kind : MessageType}
    {waitLimit : Option UInt8} {budget rest : Budget}
    (h : create address message kind waitLimit budget = .ok (s, rest)) :
    s.subject = (address, message, kind) := by
  rw [create] at h
  split at h
  · cases h
  · split at h
    · cases h
    · split at h
      · cases h
      · cases h
        rfl

theorem length_lt_of_create {address : Address} {message : List UInt8} {kind : MessageType}
    {waitLimit : Option UInt8} {budget rest : Budget}
    (h : create address message kind waitLimit budget = .ok (s, rest)) :
    message.length < Pdu.lengthLimit := by
  rw [create] at h
  split at h
  · cases h
  · split at h
    · cases h
    · next hl => exact Nat.lt_of_not_le hl

theorem subject_transmit {f : Frame} {next : Sender → Micros → Sender}
    (hn : (next { s with nAs := s.nAs.ensure now } after).subject = s.subject) (accepted : Bool) :
    ((s.transmit now f next).finish accepted after).1.subject = s.subject := by
  cases accepted with
  | true => exact hn
  | false => rfl

theorem subject_takeFlowControl (s : Sender) (now after : Micros)
    (frame : Frame) (accepted : Bool) :
    ((s.takeFlowControl now frame).finish accepted after).1.subject = s.subject := by
  unfold takeFlowControl
  split
  · split
    · rfl
    · unfold postpone
      dsimp only
      split <;> rfl
    all_goals rfl
  · rfl

theorem subject_step (s : Sender) (now after : Micros) (frame : Option Frame) (accepted : Bool) :
    ((s.step now frame).finish accepted after).1.subject = s.subject := by
  unfold step
  split
  · rfl
  · split
    · rfl
    · unfold act
      split
      · unfold sendSingle
        split
        · rfl
        · exact subject_transmit rfl accepted
      · unfold sendFirst
        split
        · rfl
        · exact subject_transmit rfl accepted
      · unfold sendConsecutive
        split
        · rfl
        · split
          · rfl
          · exact subject_transmit rfl accepted
      · exact subject_takeFlowControl _ now after _ accepted
      · exact subject_takeFlowControl _ now after _ accepted
      all_goals rfl

theorem subject_onAck (s : Sender) (now : Micros) (ack : Ack) :
    (s.onAck now ack).subject = s.subject := by
  unfold onAck
  split
  case h_5 =>
    dsimp only
    split
    · rfl
    · split <;> rfl
  all_goals rfl

/-- Once the transfer has succeeded, all of the message has been accepted. -/
theorem Emitted.eq_segmentation (h : s.Emitted sent) (hs : s.result = some (.ok ())) :
    sent = Pdu.segmentation s.address s.message := by
  have hp : s.phase = .sent := h.succeeded.mp hs
  have hall := h.rest (by simp [hp])
  rwa [show s.remaining = [] by simp [remaining, hp], List.append_nil] at hall

end Sender
end CanTransport
