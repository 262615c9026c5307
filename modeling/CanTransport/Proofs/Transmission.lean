import CanTransport.Proofs.Emission
import CanTransport.Proofs.Layout
import CanTransport.Proofs.Waiting

/-! # A sender in any surroundings

A sender is given turns, with a frame or without, and outcomes, in any order and at any readings of
the clock, and each frame that it offers is taken or refused. What it has offered, and what it has
been told, is kept in a log. The frames taken are the beginning of the message's layout, each but
the first offered only after the success of the one before.
-/
namespace CanTransport

inductive Sender.Input
  | turn (now after : Micros) (frame : Option Frame) (accepted : Bool)
  | outcome (now : Micros) (ack : Ack)

inductive Sender.Mark
  | taken (f : Frame)
  | refused (f : Frame)
  | told (ack : Ack)
deriving DecidableEq

namespace Sender

def Mark.frame? : Mark → Option Frame
  | taken f => some f
  | refused _ | told _ => none

def Mark.isOffer : Mark → Bool
  | taken _ | refused _ => true
  | told _ => false

def Mark.isRefusal : Mark → Bool
  | refused _ => true
  | taken _ | told _ => false

def sentIn (log : List Mark) : List Frame := log.filterMap Mark.frame?

def heardIn (log : List Mark) : List Mark := log.filter (!·.isRefusal)

def confirmed (frames : List Frame) : List Mark :=
  frames.flatMap fun f => [.taken f, .told .success]

variable {s next : Sender} {sent : List Frame} {now after : Micros} {frame : Option Frame}
  {outcome : StepOutcome} {f : Frame} {offset : Nat}

section Logs
variable (log : List Mark) (f : Frame) (ack : Ack)

@[simp] theorem sentIn_taken : sentIn (log ++ [.taken f]) = sentIn log ++ [f] :=
      List.filterMap_append

@[simp] theorem sentIn_refused :
    sentIn (log ++ [.refused f]) = sentIn log := by simp [sentIn, Mark.frame?]

@[simp] theorem sentIn_told :
    sentIn (log ++ [.told ack]) = sentIn log := by simp [sentIn, Mark.frame?]

@[simp] theorem heardIn_taken : heardIn (log ++ [.taken f]) = heardIn log ++ [.taken f] :=
      List.filter_append ..

@[simp] theorem heardIn_refused :
    heardIn (log ++ [.refused f]) = heardIn log := by simp [heardIn, Mark.isRefusal]

@[simp] theorem heardIn_told : heardIn (log ++ [.told ack]) = heardIn log ++ [.told ack] :=
      List.filter_append ..

end Logs

@[simp] theorem confirmed_concat (frames : List Frame) (f : Frame) :
    confirmed (frames ++ [f]) = confirmed frames ++ [.taken f] ++ [.told .success] := by
  simp [confirmed]

/-- The frame that a phase offers, and how much of the message has gone out once it is taken. -/
inductive Offer (s : Sender) : Frame → Nat → Prop
  | single {f : Frame} (phase : s.phase = .sendSingle)
      (frame : Pdu.singleFrame? s.address s.message = some f) :
      s.Offer f s.message.length
  | first {f : Frame} {carried : Nat} (phase : s.phase = .sendFirst)
      (frame : Pdu.firstFrame? s.address s.message = some (f, carried)) : s.Offer f carried
  | consecutive {f : Frame} (phase : s.phase = .sendConsecutive)
      (frame : Pdu.consecutiveFrame? s.address s.sequence s.chunk = some f) :
    s.Offer f (s.offset + s.chunk.length)

theorem step_offers {nextStep : Bool → Micros → Sender × StepOutcome}
    (h : s.step now frame = .write f nextStep) :
    ∃ offset, s.Offer f offset ∧
      ∀ accepted after, (nextStep accepted after).1.offset =
        if accepted then offset else s.offset := by
  have does := s.step_does now frame
  rw [h] at does
  cases does with
  | offers running timely due sends =>
    cases sends with
    | single hp hf => exact ⟨_, .single hp hf, fun accepted after => by cases accepted <;> rfl⟩
    | first hp hf => exact ⟨_, .first hp hf, fun accepted after => by cases accepted <;> rfl⟩
    | consecutive hp hf =>
      exact ⟨_, .consecutive hp hf, fun accepted after => by cases accepted <;> rfl⟩

theorem rest_offset (h : s.step now frame = .rest next outcome) : next.offset = s.offset := by
  have does := s.step_does now frame
  rw [h] at does
  cases does <;> rfl

theorem onAck_running {ack : Ack} (hs : s.result = none ↔ s.phase ≠ .sent ∧ s.phase ≠ .failed)
    (h : (s.onAck now ack).result = none) :
    s.result = none ∧ s.awaitsOutcome = true ∧ ack = .success ∧
    (s.onAck now ack).awaitsOutcome = false := by
  have of_phase {p : SenderPhase} (hp : s.phase = p) (hne : p ≠ .sent ∧ p ≠ .failed) :
      s.result = none :=
    hs.mpr (hp ▸ hne)
  have learns := s.onAck_learns now ack
  generalize s.onAck now ack = s' at learns h ⊢
  cases learns with
  | closed ended => exact absurd ended (not_or.mpr (hs.mp h))
  | fails | single | last => cases h
  | first hp | block hp | next hp =>
    exact ⟨of_phase hp (by decide), by simp [awaitsOutcome, hp], rfl, rfl⟩

/-- The bytes in the frames sent, as far as the sender counts them. -/
structure Conveyed (s : Sender) (sent : List Frame) : Prop where
  bytes : sent.flatMap Frame.segment = s.message.take s.offset
  offset_le : s.offset ≤ s.message.length

theorem Conveyed.congr (h : s.Conveyed sent) (hm : next.message = s.message)
    (ho : next.offset = s.offset) :
    next.Conveyed sent where
  bytes := by rw [hm, ho, h.bytes]
  offset_le := by rw [hm, ho]; exact h.offset_le

theorem Emitted.sent_eq_nil (h : s.Emitted sent)
    (hp : s.phase = .sendSingle ∨ s.phase = .sendFirst) : sent = [] := by
  have hall := h.rest (by rcases hp with hp | hp <;> simp [hp])
  have hrem : s.remaining = Pdu.segmentation s.address s.message := by
    rcases hp with hp | hp <;> rw [remaining, hp]
  rw [hrem] at hall
  exact List.append_left_eq_self.mp hall

/-- A frame taken brings the bytes that its sender counts it for. -/
theorem Conveyed.take (he : s.Emitted sent) (h : s.Conveyed sent) (hf : s.Offer f offset)
    (hm : next.message = s.message) (ho : next.offset = offset) : next.Conveyed (sent ++ [f]) := by
  constructor
  · rw [List.flatMap_append, List.flatMap_singleton, hm, ho]
    cases hf with
    | single hp hf =>
      obtain ⟨g, hg, -, hkind, -, hbytes⟩ := Pdu.singleFrame?_spec s.address (he.fits hp)
      obtain rfl : g = f := Option.some.inj (hg.symm.trans hf)
      simp [he.sent_eq_nil (.inl hp), Frame.segment, hkind, hbytes]
    | first hp hf =>
      obtain ⟨hlt, hlimit⟩ := he.segmented hp
      obtain ⟨g, hg, -, hkind, -, at', hlength, hbytes⟩ := Pdu.firstFrame?_spec s.address hlt hlimit
      cases hg.symm.trans hf
      simp [he.sent_eq_nil (.inr hp), Frame.segment, hkind, hlength, hbytes]
    | consecutive hp hf =>
      obtain ⟨g, hg, -, hkind, -, hbytes⟩ :=
        Pdu.consecutiveFrame?_spec s.address s.sequence s.chunk (List.length_take_le _ _)
      obtain rfl : g = f := Option.some.inj (hg.symm.trans hf)
      have hsegment : g.segment = s.chunk := by rw [Frame.segment, hkind]; exact hbytes
      have hchunk : s.chunk = (s.message.drop s.offset).take s.chunk.length := by
        rw [chunk, List.length_take]
        exact List.take_eq_take_min
      rw [hsegment, h.bytes, List.take_add, ← hchunk]
  · have hle := h.offset_le
    rw [hm, ho]
    cases hf with
    | single => exact Nat.le_refl _
    | first hp hf =>
      obtain ⟨hlt, hlimit⟩ := he.segmented hp
      obtain ⟨g, hg, -⟩ := Pdu.firstFrame?_spec s.address hlt hlimit
      cases hg.symm.trans hf
      exact Nat.le_of_lt (Pdu.carried_lt hlt)
    | consecutive =>
      rw [chunk, List.length_take, List.length_drop]
      omega

end Sender

structure Transmission where
  sender : Sender
  log : List Sender.Mark := []

namespace Transmission
open Sender

def react (t : Transmission) : Input → Transmission
  | .turn now after frame accepted =>
    let move := t.sender.step now frame
    { sender := (move.finish accepted after).1
      log := t.log ++ move.frame?.toList.map (if accepted then .taken else .refused) }
  | .outcome now ack => { sender := t.sender.onAck now ack, log := t.log ++ [.told ack] }

def run (t : Transmission) (inputs : List Input) : Transmission := inputs.foldl react t

def sent (t : Transmission) : List Frame := sentIn t.log

/-- Each frame is offered, and offered again, only once those before it have been taken and their
success is known. -/
def Paced (log : List Mark) : Prop :=
  ∀ before offer, before ++ [offer] <+: log → offer.isOffer = true →
    heardIn before = confirmed (sentIn before)

/-- A running sender has been told of the success of each frame that it has sent, but for the one it
waits for. -/
structure Orderly (t : Transmission) : Prop where
  emitted : t.sender.Emitted t.sent
  conveyed : t.sender.Conveyed t.sent
  paced : Paced t.log
  pending : t.sender.result = none →
    heardIn t.log ++ (if t.sender.awaitsOutcome then [.told .success] else []) = confirmed t.sent

variable {t : Transmission} {s : Sender}

theorem paced_concat {log : List Mark} {mark : Mark} (h : Paced log)
    (hm : mark.isOffer = true → heardIn log = confirmed (sentIn log)) : Paced (log ++ [mark]) := by
  intro before offer hp ho
  rcases List.prefix_concat_iff.mp hp with he | hp
  · obtain ⟨rfl, rfl⟩ := List.append_inj' he rfl |>.imp_right (List.cons.inj · |>.1)
    exact hm ho
  · exact h before offer hp ho

theorem Orderly.step (h : t.Orderly) (now after : Micros) (frame : Option Frame) (accepted : Bool) :
    ((t.sender.step now frame).finish accepted after).1.Emitted
      (t.sent ++ (t.sender.step now frame).written accepted) ∧
      ((t.sender.step now frame).finish accepted after).1.message = t.sender.message :=
  ⟨step_emitted h.emitted accepted, congrArg (·.2.1)
    (subject_step t.sender now after frame accepted)⟩

theorem Orderly.rest (h : t.Orderly) {now : Micros} {frame : Option Frame} {next : Sender}
    {outcome : StepOutcome} (hm : t.sender.step now frame = .rest next outcome) :
    Orderly { sender := next, log := t.log } := by
  obtain ⟨hemitted, hmessage⟩ := h.step now now frame false
  rw [hm] at hemitted hmessage
  rw [Move.written_rest, List.append_nil] at hemitted
  refine ⟨hemitted, h.conveyed.congr hmessage (rest_offset hm), h.paced, fun hr => ?_⟩
  rcases step_rests hm with ⟨hp, he⟩ | ⟨-, hne⟩ | ⟨he, hs, hn, -⟩
  · rw [awaitsOutcome_of_phase hp]
    exact h.pending (he.symm.trans hr)
  · exact absurd hr hne
  · have hpending := h.pending (he.symm.trans hr)
    rwa [hs, ← hn] at hpending

section Offers
variable {now after : Micros} {frame : Option Frame} {f : Frame}
  {nextStep : Bool → Micros → Sender × StepOutcome}

theorem Orderly.heardIn_eq (h : t.Orderly) (hm : t.sender.step now frame = .write f nextStep) :
    heardIn t.log = confirmed t.sent := by
  have hw := step_writes hm
  simpa [hw.settled] using h.pending hw.running

theorem Orderly.take (h : t.Orderly) (hm : t.sender.step now frame = .write f nextStep) :
    Orderly { sender := (nextStep true after).1, log := t.log ++ [.taken f] } := by
  obtain ⟨hemitted, hmessage⟩ := h.step now after frame true
  rw [hm] at hemitted hmessage
  obtain ⟨offset, hoffer, hoffset⟩ := step_offers hm
  have hheard := h.heardIn_eq hm
  refine ⟨?_, ?_, paced_concat h.paced fun _ => hheard, fun _ => ?_⟩
  · rw [sent, sentIn_taken]
    exact hemitted
  · rw [sent, sentIn_taken]
    exact h.conveyed.take h.emitted hoffer hmessage (hoffset true after)
  · rw [sent, sentIn_taken, heardIn_taken, confirmed_concat, (step_writes hm).accepted after,
      hheard]
    rfl

theorem Orderly.refuse (h : t.Orderly) (hm : t.sender.step now frame = .write f nextStep) :
    Orderly { sender := (nextStep false after).1, log := t.log ++ [.refused f] } := by
  obtain ⟨hemitted, hmessage⟩ := h.step now after frame false
  rw [hm] at hemitted hmessage
  obtain ⟨offset, -, hoffset⟩ := step_offers hm
  have hw := step_writes hm
  have hheard := h.heardIn_eq hm
  refine ⟨?_, ?_, paced_concat h.paced fun _ => hheard, fun _ => ?_⟩
  · rw [sent, sentIn_refused]
    rwa [Move.written_write, if_neg (by decide), List.append_nil] at hemitted
  · rw [sent, sentIn_refused]
    exact h.conveyed.congr hmessage (hoffset false after)
  · rw [sent, sentIn_refused, heardIn_refused, awaitsOutcome_of_phase (hw.refused after),
      hw.settled]
    exact (List.append_nil _).trans hheard

end Offers

theorem Orderly.turn (h : t.Orderly) (now after : Micros) (frame : Option Frame) (accepted : Bool) :
    (t.react (.turn now after frame accepted)).Orderly := by
  rw [react]
  cases hm : t.sender.step now frame with
  | rest next outcome => simpa [Move.frame?] using h.rest hm
  | write f nextStep =>
    cases accepted with
    | false => exact h.refuse hm
    | true => exact h.take hm

theorem Orderly.outcome (h : t.Orderly) (now : Micros) (ack : Ack) :
    (t.react (.outcome now ack)).Orderly := by
  have hsent : (t.react (.outcome now ack)).sent = t.sent := sentIn_told t.log ack
  have hmessage : (t.sender.onAck now ack).message = t.sender.message :=
    congrArg (·.2.1) (subject_onAck t.sender now ack)
  refine ⟨?_, ?_, paced_concat h.paced nofun, fun hr => ?_⟩
  · rw [hsent]
    exact onAck_emitted h.emitted now ack
  · rw [hsent]
    exact h.conveyed.congr hmessage (offset_onAck t.sender now ack)
  · obtain ⟨hrun, hwaits, rfl, hsettled⟩ := onAck_running h.emitted.running hr
    have hpending := h.pending hrun
    rw [hwaits] at hpending
    rw [hsent, react, heardIn_told, hsettled]
    exact (List.append_nil _).trans hpending

theorem Orderly.react (h : t.Orderly) (input : Input) : (t.react input).Orderly := by
  cases input with
  | turn now after frame accepted => exact h.turn now after frame accepted
  | outcome now ack => exact h.outcome now ack

theorem Orderly.run (h : t.Orderly) (inputs : List Input) : (t.run inputs).Orderly := by
  induction inputs generalizing t with
  | nil => exact h
  | cons input inputs ih => exact ih (h.react input)

/-- A transmission of a message as it should be, at any point. -/
structure Faithful (address : Address) (message : List UInt8) (t : Transmission) : Prop where
  begins : t.sent <+: (Pdu.layout message).map (.carrying address)
  bytes : t.sent.flatMap Frame.segment = message.take t.sender.offset
  count : (t.sent.flatMap Frame.segment).length = t.sender.offset
  paced : Paced t.log
  whole : t.sender.result = some (.ok ()) →
    t.sent = (Pdu.layout message).map (.carrying address) ∧ t.sent.flatMap Frame.segment = message
  single : t.sender.phase = .sendSingle →
    (Pdu.singleFrame? t.sender.address t.sender.message).isSome
  first : t.sender.phase = .sendFirst →
    ∃ f, ∃ carried ≤ t.sender.message.length, Pdu.firstFrame? t.sender.address t.sender.message =
      some (f, carried)
  consecutive : t.sender.phase = .sendConsecutive → t.sender.offset < t.sender.message.length ∧
    (Pdu.consecutiveFrame? t.sender.address t.sender.sequence t.sender.chunk).isSome

theorem Orderly.faithful {address : Address} {message : List UInt8} (h : t.Orderly)
    (ha : t.sender.address = address) (hm : t.sender.message = message)
    (hl : message.length < Pdu.lengthLimit) : t.Faithful address message := by
  have hlayout := Pdu.segmentation_eq_layout address hl
  have hbytes : t.sent.flatMap Frame.segment = message.take t.sender.offset := hm ▸ h.conveyed.bytes
  have hle : t.sender.offset ≤ message.length := hm ▸ h.conveyed.offset_le
  constructor
  case begins =>
    rw [← hlayout, ← ha, ← hm]
    exact h.emitted.begins
  case bytes => exact hbytes
  case count => rw [hbytes, List.length_take, Nat.min_eq_left hle]
  case paced => exact h.paced
  case whole =>
    intro hr
    have hall : t.sent = Pdu.segmentation address message := ha ▸ hm ▸ h.emitted.eq_segmentation hr
    exact ⟨hall.trans hlayout, hall ▸ Pdu.flatMap_segment_segmentation address hl⟩
  case single =>
    intro hp
    obtain ⟨f, hf, -⟩ := Pdu.singleFrame?_spec t.sender.address (h.emitted.fits hp)
    rw [hf]
    rfl
  case first =>
    intro hp
    obtain ⟨hs, hlimit⟩ := h.emitted.segmented hp
    obtain ⟨f, hf, -⟩ := Pdu.firstFrame?_spec t.sender.address hs hlimit
    exact ⟨f, _, Nat.le_of_lt (Pdu.carried_lt hs), hf⟩
  case consecutive =>
    intro hp
    obtain ⟨f, hf, -⟩ := Pdu.consecutiveFrame?_spec t.sender.address t.sender.sequence
        t.sender.chunk (List.length_take_le _ _)
    exact ⟨h.emitted.unfinished (by simp [isUnderWay, hp]), by rw [hf]; rfl⟩

theorem subject_run (t : Transmission) (inputs : List Input) :
    (t.run inputs).sender.subject = t.sender.subject := by
  induction inputs generalizing t with
  | nil => rfl
  | cons input inputs ih =>
    refine (ih (t.react input)).trans ?_
    cases input with
    | turn now after frame accepted => exact subject_step t.sender now after frame accepted
    | outcome now ack => exact subject_onAck t.sender now ack

theorem orderly_of_create {address : Address} {message : List UInt8} {kind : MessageType}
    {waitLimit : Option UInt8} {budget rest : Budget}
    (h : Sender.create address message kind waitLimit budget = .ok (s, rest)) :
    Orderly { sender := s } := by
  have hnew : s.offset = 0 ∧ s.awaitsOutcome = false := by
    rw [create] at h
    split at h
    · cases h
    · split at h
      · cases h
      · split at h
        · cases h
        · cases h
          by_cases hs : message.length ≤ Pdu.singleLimit <;> simp [awaitsOutcome, hs]
  refine ⟨emitted_of_create h, ⟨?_, ?_⟩, fun before offer hp => ?_, fun _ => ?_⟩
  · rw [hnew.1]
    rfl
  · rw [hnew.1]
    exact Nat.zero_le _
  · simp at hp
  · rw [hnew.2]
    rfl

/-- Whatever turns and outcomes a new sender is given, what the controller takes from it follows the
layout of its message, and success means that all of it has been taken. -/
theorem transmission_faithful {address : Address} {message : List UInt8} {kind : MessageType}
    {waitLimit : Option UInt8} {budget rest : Budget}
    (h : Sender.create address message kind waitLimit budget = .ok (s, rest))
    (inputs : List Input) :
    (run { sender := s } inputs).Faithful address message := by
  have hsubject := (subject_run { sender := s } inputs).trans (subject_create h)
  exact ((orderly_of_create h).run inputs).faithful (congrArg (·.1) hsubject)
    (congrArg (·.2.1) hsubject) (length_lt_of_create h)

def twentyBytes : List Input :=
  let wait : Frame := Pdu.flowControl (.physical 0xF1 0x10) .wait 0 .zero
  let go : Frame := Pdu.flowControl (.physical 0xF1 0x10) .continueToSend 0 .zero
  [.turn 0 0 none false, .turn 5 5 none true, .outcome 6 .success, .turn 7 7 (some wait) true,
    .turn 8 8 (some go) true, .turn 9 9 none true, .outcome 10 .success, .turn 11 11 none true,
    .outcome 12 .success]

def twentyByteSender : Sender where
  address := .physical 0x10 0xF1
  kind := .diagnostics
  message := (List.range 20).map UInt8.ofNat
  waitLimit := none
  phase := .sendFirst

theorem transmission_faithful_twentyBytes :
    ∃ s rest, Sender.create (.physical 0x10 0xF1) ((List.range 20).map UInt8.ofNat) .diagnostics
      none ⟨1000⟩ = .ok (s, rest) ∧ (run { sender := s } twentyBytes).sender.result =
      some (.ok ()) ∧ (run { sender := s } twentyBytes).log.length = 7 ∧
        (run { sender := s } twentyBytes).Faithful (.physical 0x10 0xF1)
        ((List.range 20).map UInt8.ofNat) := by
  have hs : Sender.create (.physical 0x10 0xF1) ((List.range 20).map UInt8.ofNat)
      .diagnostics none ⟨1000⟩ =
      .ok (twentyByteSender, ⟨948⟩) := rfl
  exact ⟨_, _, hs, rfl, rfl, transmission_faithful hs twentyBytes⟩

end Transmission
end CanTransport
