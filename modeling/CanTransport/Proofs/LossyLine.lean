import CanTransport.Proofs.Emission
import CanTransport.Proofs.Reassembly

/-! # One conversation over a lossy line

A sender and a receiver are joined by two queues of frames. Frames may be lost, and a frame may be
followed by copies of itself; nothing else is known about the order of steps, the outcomes, the
clock or the settings. A message received with success is the message sent.
-/
namespace CanTransport

/-- The two ends and the frames under way in both directions, oldest first. -/
structure Line where
  sender : Sender
  receiver : Receiver
  forth : List Frame := []
  back : List Frame := []

namespace Line

inductive Fault
  | loss (place : Nat)
  | echo (place : Nat)

def Fault.apply : Fault → List Frame → List Frame
  | loss place, frames => frames.eraseIdx place
  | echo place, frames => frames.take (place + 1) ++ frames.drop place

/-- What happens on the line. A step takes the oldest frame under way to its end if `take`; an
outcome may be reported at any time. -/
inductive Event
  | stepSender (now : Micros) (take accepted : Bool) (after : Micros)
  | stepReceiver (now : Micros) (take : Bool) (budget : Budget) (accepted : Bool) (after : Micros)
  | ackSender (now : Micros) (ack : Ack)
  | ackReceiver (now : Micros) (ack : Ack)
  | setBlockSize (blockSize : UInt8)
  | setSeparation (separation : SeparationTime)
  | faultForth (fault : Fault)
  | faultBack (fault : Fault)

/-- The oldest frame of a queue if it is to be taken, and what stays in the queue. -/
def handOver (take : Bool) (frames : List Frame) : Option Frame × List Frame :=
  if take then (frames.head?, frames.tail) else (none, frames)

def step (l : Line) : Event → Line
  | .stepSender now take accepted after =>
    let (frame, back) := handOver take l.back
    let move := l.sender.step now frame
    { l with sender := (move.finish accepted after).1, forth := l.forth ++ move.written accepted, back }
  | .stepReceiver now take budget accepted after =>
    let (frame, forth) := handOver take l.forth
    let move := (l.receiver.step now frame budget).1
    { l with receiver := (move.finish accepted after).1, forth, back := l.back ++ move.written accepted }
  | .ackSender now ack => { l with sender := l.sender.onAck now ack }
  | .ackReceiver now ack => { l with receiver := l.receiver.onAck now ack }
  | .setBlockSize blockSize => { l with receiver := l.receiver.setBlockSize blockSize }
  | .setSeparation separation => { l with receiver := l.receiver.setSeparation separation }
  | .faultForth fault => { l with forth := fault.apply l.forth }
  | .faultBack fault => { l with back := fault.apply l.back }

def run (l : Line) (events : List Event) : Line := events.foldl step l

/-- Frames of `sent`, each at the place of the one before or later, the first not before `low`. -/
def Climbs (sent : List Frame) : Nat → List Frame → Prop
  | _, [] => True
  | low, f :: rest => ∃ i, low ≤ i ∧ sent[i]? = some f ∧ Climbs sent i rest

theorem Climbs.mono {sent frames : List Frame} {low low' : Nat} (h : Climbs sent low frames)
    (hl : low' ≤ low) :
    Climbs sent low' frames := by
  cases frames with
  | nil => trivial
  | cons f rest =>
    obtain ⟨i, hi, hf, hrest⟩ := h
    exact ⟨i, Nat.le_trans hl hi, hf, hrest⟩

theorem Climbs.sublist {sent frames kept : List Frame} {low : Nat} (h : Climbs sent low frames)
    (hs : kept.Sublist frames) : Climbs sent low kept := by
  induction hs generalizing low with
  | slnil => trivial
  | cons f _ ih =>
    obtain ⟨i, hi, -, hrest⟩ := h
    exact (ih hrest).mono hi
  | cons_cons f _ ih =>
    obtain ⟨i, hi, hf, hrest⟩ := h
    exact ⟨i, hi, hf, ih hrest⟩

theorem Climbs.echo {sent frames : List Frame} {low : Nat} (h : Climbs sent low frames)
    (place : Nat) :
    Climbs sent low (frames.take (place + 1) ++ frames.drop place) := by
  induction frames generalizing low place with
  | nil => simpa using h
  | cons f rest ih =>
    obtain ⟨i, hi, hf, hrest⟩ := h
    cases place with
    | zero => exact ⟨i, hi, hf, i, Nat.le_refl i, hf, hrest⟩
    | succ place => exact ⟨i, hi, hf, ih hrest place⟩

theorem Climbs.fault {sent frames : List Frame} {low : Nat} (h : Climbs sent low frames)
    (fault : Fault) :
    Climbs sent low (fault.apply frames) := by
  cases fault with
  | loss place => exact h.sublist (List.eraseIdx_sublist _ _)
  | echo place => exact h.echo place

theorem Climbs.append {sent frames : List Frame} {low : Nat} (h : Climbs sent low frames)
    (hl : low ≤ sent.length) (new : List Frame) (hn : new.length ≤ 1) :
    Climbs (sent ++ new) low (frames ++ new) := by
  induction frames generalizing low with
  | nil =>
    match new, hn with
    | [], _ => trivial
    | [f], _ => exact ⟨sent.length, hl, by simp, trivial⟩
  | cons f rest ih =>
    obtain ⟨i, hi, hf, hrest⟩ := h
    have hlt : i < sent.length := (List.getElem?_eq_some_iff.mp hf).1
    exact ⟨i, hi, by rwa [List.getElem?_append_left hlt], ih hrest (Nat.le_of_lt hlt)⟩

/-- The frames under way, those held back included, were sent after the last one let in. -/
structure Ordered (address : Address) (message : List UInt8) (l : Line) (sent : List Frame)
    (last : Nat) : Prop where
  emitted : l.sender.Emitted sent
  subject_eq : (l.sender.address, l.sender.message) = (address, message)
  short : message.length < Pdu.lengthLimit
  follows : l.receiver.Follows message last
  last_le : last ≤ sent.length
  climbs : Climbs sent last (l.receiver.held.toList ++ l.forth)

variable {address : Address} {message : List UInt8} {l : Line} {sent : List Frame} {last : Nat}

theorem Ordered.isSegment (h : Ordered address message l sent last) {i : Nat} {f : Frame}
    (hf : sent[i]? = some f) : Pdu.IsSegment message i f := by
  obtain ⟨rest, hrest⟩ := h.emitted.begins
  obtain ⟨ha, hm⟩ := Prod.mk.inj h.subject_eq
  rw [ha, hm] at hrest
  apply Pdu.isSegment_of_getElem? address h.short
  rw [← hrest, List.getElem?_append_left (List.getElem?_eq_some_iff.mp hf).1, hf]

theorem Ordered.transfer {l' : Line} {sent' : List Frame} (h : Ordered address message l sent last)
    (he : l'.sender.Emitted sent') (hs : l'.sender.subject = l.sender.subject)
    (hf : l'.receiver.Follows message last) (hle : sent.length ≤ sent'.length)
    (hc : Climbs sent' last (l'.receiver.held.toList ++ l'.forth)) :
    Ordered address message l' sent' last := by
  refine ⟨he, ?_, h.short, hf, Nat.le_trans h.last_le hle, hc⟩
  rw [← h.subject_eq]
  exact congrArg (fun subject => (subject.1, subject.2.1)) hs

theorem Ordered.send (h : Ordered address message l sent last) (now after : Micros)
    (frame : Option Frame) (accepted : Bool) (back : List Frame) :
    Ordered address message
      { l with
        sender := ((l.sender.step now frame).finish accepted after).1
        forth := l.forth ++ (l.sender.step now frame).written accepted
        back }
      (sent ++ (l.sender.step now frame).written accepted) last := by
  refine h.transfer (Sender.step_emitted h.emitted accepted) (Sender.subject_step _ _ _ _ _)
    h.follows (by simp) ?_
  have hc := h.climbs.append h.last_le ((l.sender.step now frame).written accepted)
    (by cases l.sender.step now frame <;> cases accepted <;> simp [Move.written, Move.frame?])
  simpa using hc

theorem handOver_append (take : Bool) (frames : List Frame) :
    (handOver take frames).1.toList ++ (handOver take frames).2 = frames := by
  unfold handOver
  cases take <;> cases frames <;> rfl

theorem Ordered.settle {r' : Receiver} {f : Frame} {forth : List Frame}
    (h : Ordered address message l sent last) (hc : Climbs sent last (f :: forth))
    (hin : ∀ i, last ≤ i → Pdu.IsSegment message i f → r'.Settled message i) (back : List Frame) :
    ∃ last', Ordered address message { l with receiver := r', forth, back } sent last' := by
  obtain ⟨i, hi, hsent, hrest⟩ := hc
  obtain ⟨hf, hnone⟩ := hin i hi (h.isSegment hsent)
  have hlt : i < sent.length := (List.getElem?_eq_some_iff.mp hsent).1
  refine ⟨i, h.emitted, h.subject_eq, h.short, hf, Nat.le_of_lt hlt, ?_⟩
  rw [hnone]
  exact hrest

/-- The receiver holds the frame back, lets it in or loses it, and the order stays. -/
theorem Ordered.receive {r' : Receiver} {frame : Option Frame} {forth back : List Frame}
    (h : Ordered address message l sent last) (hl : frame.toList ++ forth = l.forth)
    (hr : Receiver.Heeds message last frame l.receiver r') :
    ∃ last', Ordered address message { l with receiver := r', forth, back } sent last' := by
  have hc := h.climbs
  rcases hr with ⟨hf, hheld⟩ | ⟨hheld, f, rfl, hin⟩
  · refine ⟨last, h.transfer h.emitted rfl hf (Nat.le_refl _) (hc.sublist ?_)⟩
    rw [← hl]
    rcases hheld with hheld | hheld
    · rw [hheld]
      exact (List.sublist_append_right _ _).trans (List.sublist_append_right _ _)
    · rw [hheld]
      cases l.receiver.held with
      | none => exact List.Sublist.refl _
      | some g => exact (List.sublist_append_right _ _).cons_cons g
  · rw [hheld, ← hl] at hc
    exact h.settle hc hin back

/-- An outcome at the receiver may let in the frame held back. -/
theorem Ordered.acknowledge (h : Ordered address message l sent last) (now : Micros) (ack : Ack) :
    ∃ last', Ordered address message { l with receiver := l.receiver.onAck now ack }
      sent last' := by
  have hc := h.climbs
  rcases Receiver.onAck_heeds h.follows now ack with ⟨hf, hheld⟩ | ⟨f, hheld, hin⟩
  · refine ⟨last, h.transfer h.emitted rfl hf (Nat.le_refl _) (hc.sublist ?_)⟩
    rcases hheld with hheld | hheld
    · rw [hheld]
      exact List.sublist_append_right _ _
    · exact hheld ▸ List.Sublist.refl _
  · rw [hheld] at hc
    exact h.settle hc hin l.back

theorem Ordered.faultForth (h : Ordered address message l sent last) (fault : Fault) :
    Ordered address message { l with forth := fault.apply l.forth } sent last := by
  refine h.transfer h.emitted rfl h.follows (Nat.le_refl _) ?_
  have hc := h.climbs
  change Climbs sent last (l.receiver.held.toList ++ fault.apply l.forth)
  cases hh : l.receiver.held with
  | none =>
    rw [hh] at hc
    exact hc.fault fault
  | some g =>
    rw [hh] at hc
    obtain ⟨i, hi, hg, hrest⟩ := hc
    exact ⟨i, hi, hg, hrest.fault fault⟩

/-- Nothing that happens on the line puts its frames out of order. -/
theorem Ordered.step (h : Ordered address message l sent last) (event : Event) :
    ∃ sent' last', Ordered address message (l.step event) sent' last' := by
  cases event with
  | stepSender now take accepted after => exact ⟨_, _, h.send now after _ accepted _⟩
  | stepReceiver now take budget accepted after =>
    exact ⟨sent, h.receive (handOver_append take l.forth) (Receiver.step_heeds h.follows accepted)⟩
  | ackSender now ack =>
    exact ⟨sent, last, h.transfer (Sender.onAck_emitted h.emitted now ack)
      (Sender.subject_onAck _ _ _) h.follows (Nat.le_refl _) h.climbs⟩
  | ackReceiver now ack => exact ⟨sent, h.acknowledge now ack⟩
  | setBlockSize blockSize =>
    exact ⟨sent, last, h.transfer h.emitted rfl (h.follows.congr rfl rfl rfl rfl rfl rfl)
      (Nat.le_refl _) h.climbs⟩
  | setSeparation separation =>
    exact ⟨sent, last, h.transfer h.emitted rfl (h.follows.congr rfl rfl rfl rfl rfl rfl)
      (Nat.le_refl _) h.climbs⟩
  | faultForth fault => exact ⟨sent, last, h.faultForth fault⟩
  | faultBack fault =>
    exact ⟨sent, last, h.transfer h.emitted rfl h.follows (Nat.le_refl _) h.climbs⟩

theorem Ordered.run (h : Ordered address message l sent last) (events : List Event) :
    ∃ sent' last', Ordered address message (l.run events) sent' last' := by
  induction events generalizing l sent last with
  | nil => exact ⟨sent, last, h⟩
  | cons event rest ih =>
    obtain ⟨sent', last', h'⟩ := h.step event
    exact ih h'

variable {kind : MessageType} {waitLimit : Option UInt8} {blockSize : UInt8}
  {separation : SeparationTime}
variable {budget budget' rest rest' : Budget} {s : Sender} {r : Receiver}

theorem ordered_of_create (hs : Sender.create address message kind waitLimit budget = .ok (s, rest))
    (hr : Receiver.create address blockSize separation budget' = .ok (r, rest')) :
    Ordered address message { sender := s, receiver := r } [] 0 := by
  have he := Sender.emitted_of_create hs
  rw [Sender.create] at hs
  split at hs
  · cases hs
  · split at hs
    · cases hs
    · next hl =>
      split at hs
      · cases hs
      · cases hs
        rw [Receiver.create] at hr
        split at hr
        · cases hr
        · cases hr
          exact ⟨he, rfl, Nat.lt_of_not_le hl, ⟨rfl, rfl⟩, Nat.le_refl 0, trivial⟩

/-- Whatever happens on the line, a message received with success is the message sent. -/
theorem message_of_received
    (hs : Sender.create address message kind waitLimit budget = .ok (s, rest))
    (hr : Receiver.create address blockSize separation budget' = .ok (r, rest'))
    (events : List Event)
    (hok : (run { sender := s, receiver := r } events).receiver.result = some (.ok ())) :
    (run { sender := s, receiver := r } events).receiver.message = message := by
  obtain ⟨sent, last, h⟩ := (ordered_of_create hs hr).run events
  have hf := h.follows
  cases hp : (run { sender := s, receiver := r } events).receiver.phase <;>
    simp only [Receiver.Follows, hp, hok] at hf
  case received => exact hf.2.2
  all_goals simp at hf

def twentyBytes : Line where
  sender :=
    { address := .physical 0x10 0xF1, kind := .diagnostics, message := (List.range 20).map UInt8.ofNat,
      waitLimit := none, phase := .sendFirst }
  receiver :=
    { address := .physical 0x10 0xF1, blockSize := 0, separation := .zero, sentBlockSize := 0,
      sentSeparation := .zero }

def echoes : List Event :=
  [.stepSender 0 false true 0, .faultForth (.echo 0), .stepReceiver 0 true ⟨1000⟩ true 0,
    .stepReceiver 0 true ⟨1000⟩ true 0, .ackSender 0 .success, .faultBack (.echo 0),
    .stepSender 0 true true 0, .stepSender 0 false true 0, .ackSender 0 .success,
    .stepSender 0 false true 0, .faultForth (.echo 1), .faultForth (.loss 2),
    .stepReceiver 0 true ⟨1000⟩ true 0, .ackReceiver 0 .success, .stepReceiver 0 true ⟨1000⟩ true 0]

theorem message_of_received_echoes :
    (twentyBytes.run echoes).receiver.result = some (.ok ()) ∧
      (twentyBytes.run echoes).receiver.message = (List.range 20).map UInt8.ofNat := by
  have hs : Sender.create (.physical 0x10 0xF1) ((List.range 20).map UInt8.ofNat)
      .diagnostics none ⟨1000⟩ =
      .ok (twentyBytes.sender, ⟨948⟩) := rfl
  have hr : Receiver.create (.physical 0x10 0xF1) 0 .zero ⟨1000⟩ =
      .ok (twentyBytes.receiver, ⟨968⟩) := rfl
  exact ⟨rfl, message_of_received hs hr echoes rfl⟩

end Line
end CanTransport
