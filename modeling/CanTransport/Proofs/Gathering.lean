import CanTransport.Proofs.Buffering
import CanTransport.Proofs.Inputs
import CanTransport.Proofs.Layout

/-! # A receiver in any surroundings

What a receiver processes is kept in a list: the frame that opens the reception and those that
follow, among them one that was held until the own flow control was confirmed. The bytes go to the
buffer, where every access is checked. Whatever the receiver is given, no access fails, the frames
after the first are numbered from one on until one is not, and a message received is what the frames
processed bring, as far as it was announced.
-/
namespace CanTransport

/-- What is wrong with a frame that comes as number `number` after a first frame, if something is.
-/
def Frame.breach? (f : Frame) (number : Nat) : Option TransferError :=
  if f.pduType? ≠ some .consecutiveFrame then some .unexpectedPdu
  else if (lowNibble (f.byte 0)).toNat ≠ number % 16 then some .wrongSequenceNumber
  else none

/-- The frame that is processed, if one is: one that comes in time to a receiver that is free for
it, or the one held. -/
def Receiver.takesIn (r : Receiver) : Endpoint.Input → Option Frame
  | .turn now _ frame _ _ =>
    if r.result = none ∧ r.expired? now = none ∧
      (r.phase = .fresh ∨ r.phase = .awaitConsecutive) then frame else none
  | .outcome _ ack => if r.phase = .awaitFlowAck ∧ ack = .success then r.held else none
  | .blockSize _ | .separation _ => none

/-- What a frame that is processed puts into the buffer. -/
def Buffer.take? (b : Buffer) (r : Receiver) (f : Frame) : Endpoint.Input → Option Buffer
  | .turn _ _ _ budget _ => if r.phase = .fresh then b.open? r f budget else b.consecutive? r f
  | _ => b.consecutive? r f

/-- A receiver with its buffer and the frames that it has processed. -/
structure Gathering where
  receiver : Receiver
  buffer : Buffer := {}
  processed : List Frame := []

namespace Gathering
variable {x y : Gathering} {r : Receiver} {now : Micros} {f : Frame} {input : Endpoint.Input}
  {b : Buffer} {rest : List Frame}

def react? (x : Gathering) (input : Endpoint.Input) : Option Gathering :=
  match x.receiver.takesIn input with
  | none => some { x with receiver := x.receiver.react input }
  | some f => (x.buffer.take? x.receiver f input).map fun buffer =>
    { receiver := x.receiver.react input, buffer, processed := x.processed ++ [f] }

def run? (x : Gathering) (inputs : List Endpoint.Input) : Option Gathering := inputs.foldlM react? x

def InOrder (rest : List Frame) : Prop :=
  ∀ (i : Nat) (f : Frame), rest[i]? = some f → f.breach? (i + 1) = none

/-- The first frame out of order is the last one processed, and its error is the result. -/
def Breaks (x : Gathering) : Prop :=
  ∀ first rest, x.processed = first :: rest → ∀ (i : Nat) (f : Frame) error, rest[i]? = some f →
    f.breach? (i + 1) = some error → rest.length = i + 1 ∧ x.receiver.result = some (.error error)

/-- A reception that goes on after its first frame. -/
structure Open (x : Gathering) : Prop where
  running : x.receiver.result = none
  opened : ∃ first rest start, x.processed = first :: rest ∧ first.pduType? = some .firstFrame ∧
    Pdu.announced? first.payload = some (x.receiver.expected, start) ∧
    x.receiver.sequence.toNat = (1 + rest.length) % 16 ∧ InOrder rest
  length : x.buffer.bytes.length = x.receiver.expected
  holds : x.buffer.Holds x.receiver.taken
  unfinished : x.receiver.taken.length < x.receiver.expected
  taken : x.receiver.taken = x.processed.flatMap Frame.segment

structure Ended (x : Gathering) : Prop where
  phase : x.receiver.phase = .received ∨ x.receiver.phase = .failed
  latched : x.receiver.result ≠ none
  holds : x.buffer.Holds x.receiver.taken
  breaks : x.Breaks
  whole : x.receiver.result = some (.ok ()) → x.processed ≠ [] ∧
    x.receiver.taken = (x.processed.flatMap Frame.segment).take x.receiver.expected ∧
    x.receiver.taken.length = x.receiver.expected ∧ x.buffer.bytes.length = x.receiver.expected

/-- How a reception can stand. -/
inductive Regular (x : Gathering) : Prop
  | fresh (phase : x.receiver.phase = .fresh) (running : x.receiver.result = none)
      (processed : x.processed = []) (buffer : x.buffer = {}) (taken : x.receiver.taken = [])
  | open_ (phase : x.receiver.phase ≠ .fresh) (opened : x.Open)
  | ended (ended : x.Ended)

theorem eq_of_getElem?_concat {i : Nat} {g : Frame} (h : (rest ++ [f])[i]? = some g) :
    rest[i]? = some g ∨ i = rest.length ∧ g = f := by
  by_cases hi : i < rest.length
  · exact .inl (by rwa [List.getElem?_append_left hi] at h)
  · rw [List.getElem?_append_right (Nat.le_of_not_lt hi), List.getElem?_singleton] at h
    split at h
    · next hz => exact .inr ⟨by omega, (Option.some.inj h).symm⟩
    · cases h

theorem inOrder_nil : InOrder [] := by
  intro i f hf
  cases hf

theorem inOrder_concat (h : InOrder rest) (hf : f.breach? (rest.length + 1) = none) :
    InOrder (rest ++ [f]) := by
  intro i g hg
  rcases eq_of_getElem?_concat hg with hg | ⟨rfl, rfl⟩
  · exact h i g hg
  · exact hf

/-- Frames in order, and then one that is not. -/
theorem breaks_concat {first : Frame} {error : TransferError}
    (hp : x.processed = first :: (rest ++ [f])) (h : InOrder rest)
    (hf : f.breach? (rest.length + 1) = some error) (hr : x.receiver.result = some (.error error)) :
    x.Breaks := by
  intro first' rest' hp' i g error' hg hbreach
  obtain ⟨rfl, rfl⟩ := List.cons.inj (hp'.symm.trans hp)
  rcases eq_of_getElem?_concat hg with hg | ⟨rfl, rfl⟩
  · cases (h i g hg).symm.trans hbreach
  · cases hf.symm.trans hbreach
    exact ⟨List.length_append, hr⟩

theorem breaks_of_inOrder {first : Frame} (hp : x.processed = first :: rest) (h : InOrder rest) :
    x.Breaks := by
  intro first' rest' hp' i g error hg hbreach
  obtain ⟨rfl, rfl⟩ := List.cons.inj (hp'.symm.trans hp)
  cases (h i g hg).symm.trans hbreach

theorem breaks_of_length_le (h : x.processed.length ≤ 1) : x.Breaks := by
  intro first rest hp i f error hf
  rw [hp, List.length_cons] at h
  obtain rfl := List.length_eq_zero_iff.mp (Nat.le_zero.mp (Nat.le_of_succ_le_succ h))
  cases hf

theorem Open.congr (h : x.Open) (hr : r.result = x.receiver.result)
    (he : r.expected = x.receiver.expected) (hs : r.sequence = x.receiver.sequence)
    (ht : r.taken = x.receiver.taken) : Open { x with receiver := r } where
  running := hr.trans h.running
  opened := by
    rw [he, hs]
    exact h.opened
  length := h.length.trans he.symm
  holds := ht ▸ h.holds
  unfinished := by
    rw [ht, he]
    exact h.unfinished
  taken := ht.trans h.taken

theorem Regular.congr (h : x.Regular) (hp : r.phase = x.receiver.phase)
    (hr : r.result = x.receiver.result) (he : r.expected = x.receiver.expected)
    (hs : r.sequence = x.receiver.sequence) (ht : r.taken = x.receiver.taken) :
    Regular { x with receiver := r } := by
  cases h with
  | fresh phase running processed buffer taken =>
    exact .fresh (hp.trans phase) (hr.trans running) processed buffer (ht.trans taken)
  | open_ phase opened => exact .open_ (fun h => phase (hp ▸ h)) (opened.congr hr he hs ht)
  | ended ended =>
    refine .ended ⟨hp ▸ ended.phase, hr ▸ ended.latched, ht ▸ ended.holds, fun first rest hpr =>
      ?_, fun hok => ?_⟩
    · have hbreaks := ended.breaks first rest hpr
      exact hr ▸ hbreaks
    · rw [ht, he]
      exact ended.whole (hr ▸ hok)

theorem ended_of_error {error : TransferError} (now : Micros) (holds : x.buffer.Holds r.taken)
    (breaks : Breaks { x with receiver := r.finish now (.error error) }) :
    Regular { x with receiver := r.finish now (.error error) } :=
  .ended ⟨.inr rfl, Option.some_ne_none _, holds, breaks, fun hok => by cases hok⟩

theorem Regular.fail (h : x.Regular) (hr : x.receiver.result = none) (now : Micros)
    (ht : r.taken = x.receiver.taken) (error : TransferError) :
    Regular { x with receiver := r.finish now (.error error) } := by
  cases h with
  | fresh phase running processed buffer taken =>
    refine ended_of_error now ?_ (breaks_of_length_le (by simp [processed]))
    rw [buffer, ht, taken]
    exact ⟨rfl, rfl⟩
  | open_ phase opened =>
    obtain ⟨first, rest, start, hp, -, -, -, inOrder⟩ := opened.opened
    exact ended_of_error now (ht ▸ opened.holds) (breaks_of_inOrder hp inOrder)
  | ended ended => exact absurd hr ended.latched

theorem breach?_eq_none (kind : f.pduType? = some .consecutiveFrame)
    (number : lowNibble (f.byte 0) = r.sequence)
    (sequence : r.sequence.toNat = (1 + rest.length) % 16) :
    f.breach? (rest.length + 1) = none := by
  rw [Frame.breach?, if_neg (by simp [kind]), number, sequence, Nat.add_comm, if_neg (by simp)]

/-- The bytes of a consecutive frame follow those before, up to the length announced. -/
theorem Open.segment (h : x.Open) (kind : f.pduType? = some .consecutiveFrame) :
    (x.receiver.absorbed f).taken = ((x.processed ++ [f]).flatMap Frame.segment).take
      x.receiver.expected := by
  have hsegment : f.segment = f.payload.drop 1 := by rw [Frame.segment, kind]
  rw [List.flatMap_append, List.flatMap_singleton, hsegment, ← h.taken, List.take_append,
    List.take_of_length_le (Nat.le_of_lt h.unfinished)]
  rfl

theorem Open.absorb (h : x.Open) (kind : f.pduType? = some .consecutiveFrame)
    (number : lowNibble (f.byte 0) = x.receiver.sequence)
    (holds : b.Holds (x.receiver.absorbed f).taken) (length : b.bytes.length = x.receiver.expected)
    (more : ¬(x.receiver.absorbed f).expected ≤ (x.receiver.absorbed f).taken.length) :
    Open { receiver := x.receiver.absorbed f, buffer := b, processed := x.processed ++ [f] } := by
  obtain ⟨first, rest, start, hp, form, announced, sequence, inOrder⟩ := h.opened
  have hbreach := breach?_eq_none kind number sequence
  have htaken := h.segment kind
  have hshort : (x.receiver.absorbed f).taken.length < x.receiver.expected := Nat.lt_of_not_le more
  constructor
  case running => exact h.running
  case opened =>
    refine ⟨first, rest ++ [f],
      start, by rw [hp]; rfl, form, announced, ?_, inOrder_concat inOrder hbreach⟩
    change (Pdu.nextSequence x.receiver.sequence).toNat = _
    rw [Pdu.nextSequence_toNat, sequence, List.length_append]
    simp only [List.length_singleton]
    omega
  case length => exact length
  case holds => exact holds
  case unfinished => exact hshort
  case taken =>
    rw [htaken, List.length_take] at hshort
    rw [htaken]
    exact List.take_of_length_le (by omega)

theorem Open.consume (h : x.Open) (hp : x.receiver.phase = .awaitConsecutive)
    (now : Micros) (f : Frame) :
    ∃ b, x.buffer.consecutive? x.receiver f = some b ∧ Regular
      { receiver := x.receiver.consume now f, buffer := b, processed := x.processed ++ [f] } := by
  have hle := Nat.le_of_lt h.unfinished
  obtain ⟨first, rest, start, hprocessed, form, announced, sequence, inOrder⟩ := h.opened
  have hall : x.processed ++ [f] = first :: (rest ++ [f]) := by rw [hprocessed]; rfl
  have consumes := x.receiver.consume_consumes now f
  generalize x.receiver.consume now f = r at consumes ⊢
  cases consumes with
  | unexpected kind =>
    have hbreach : f.breach? (rest.length + 1) = some .unexpectedPdu := if_pos kind
    exact ⟨_, Buffer.consecutive?_unexpected kind,
      ended_of_error (x := { x with processed := x.processed ++ [f] }) now h.holds
        (breaks_concat hall inOrder hbreach rfl)⟩
  | misplaced kind number =>
    have hbreach : f.breach? (rest.length + 1) = some .wrongSequenceNumber := by
      rw [Frame.breach?, if_neg (by simp [kind]), if_pos]
      rw [Nat.add_comm, ← sequence]
      exact fun heq => number (UInt8.toNat_inj.mp heq)
    exact ⟨_, Buffer.consecutive?_misplaced kind number,
      ended_of_error (x := { x with processed := x.processed ++ [f] }) now h.holds
        (breaks_concat hall inOrder hbreach rfl)⟩
  | last kind number whole =>
    obtain ⟨b, hb, length, holds⟩ := Buffer.consecutive?_absorbed h.holds h.length hle kind number
    have hbreach := breach?_eq_none kind number sequence
    have htaken := h.segment kind
    refine ⟨b, hb,
      .ended ⟨.inl rfl, Option.some_ne_none _, holds,
        breaks_of_inOrder hall (inOrder_concat inOrder hbreach), fun _ => ?_⟩⟩
    refine ⟨List.concat_ne_nil _ _, htaken, ?_, length⟩
    have hwhole : x.receiver.expected ≤ (x.receiver.absorbed f).taken.length := whole
    rw [htaken, List.length_take] at hwhole
    change (x.receiver.absorbed f).taken.length = x.receiver.expected
    rw [htaken, List.length_take]
    omega
  | block kind number more =>
    obtain ⟨b, hb, length, holds⟩ := Buffer.consecutive?_absorbed h.holds h.length hle kind number
    exact ⟨b, hb, .open_ ReceiverPhase.noConfusion
      ((h.absorb kind number holds length more).congr rfl rfl rfl rfl)⟩
  | next kind number more =>
    obtain ⟨b, hb, length, holds⟩ := Buffer.consecutive?_absorbed h.holds h.length hle kind number
    have hphase : { x.receiver.absorbed f with nCr := .start now }.phase ≠ .fresh := by
      change x.receiver.phase ≠ .fresh
      simp [hp]
    exact ⟨b, hb, .open_ hphase ((h.absorb kind number holds length more).congr rfl rfl rfl rfl)⟩

theorem react?_passes (h : x.receiver.takesIn input = none) (hr : x.receiver.react input = r)
    (hy : Regular { x with receiver := r }) :
    ∃ y, x.react? input = some y ∧ y.receiver = x.receiver.react input ∧ y.Regular :=
  ⟨_, by rw [react?, h], rfl, hr ▸ hy⟩

theorem react?_takes (h : x.receiver.takesIn input = some f)
    (hb : x.buffer.take? x.receiver f input = some b) (hr : x.receiver.react input = r)
    (hy : Regular { receiver := r, buffer := b, processed := x.processed ++ [f] }) :
    ∃ y, x.react? input = some y ∧ y.receiver = x.receiver.react input ∧ y.Regular :=
  ⟨_, by rw [react?, h]; dsimp only; rw [hb, Option.map_some], rfl, hr ▸ hy⟩

theorem Regular.of_fresh (h : x.Regular) (hp : x.receiver.phase = .fresh) :
    x.processed = [] ∧ x.buffer = {} ∧ x.receiver.taken = [] := by
  cases h with
  | fresh phase running processed buffer taken => exact ⟨processed, buffer, taken⟩
  | open_ phase => exact absurd hp phase
  | ended ended => rcases ended.phase with he | he <;> cases he.symm.trans hp

theorem Regular.refuse (h : x.Regular) (hp : x.receiver.phase = .fresh) (now : Micros) (f : Frame)
    (ht : r.taken = x.receiver.taken) (error : TransferError) :
    Regular { receiver := r.finish now (.error error), buffer := x.buffer, processed := x.processed ++ [f] } := by
  obtain ⟨hprocessed, hbuffer, htaken⟩ := h.of_fresh hp
  refine ended_of_error (x := { x with processed := x.processed ++ [f] })
    now ?_ (breaks_of_length_le (by simp [hprocessed]))
  change x.buffer.Holds r.taken
  rw [hbuffer, ht, htaken]
  exact ⟨rfl, rfl⟩

theorem Regular.complete (h : x.Regular) (hp : x.receiver.phase = .fresh)
    (now : Micros) (r : Receiver) (kind : f.pduType? = some .singleFrame)
    (carried : (lowNibble (f.byte 0)).toNat + 1 ≤ f.payload.length)
    (holds : b.Holds (r.whole f).taken) (length : b.bytes.length = (r.whole f).expected) :
    Regular { receiver := (r.whole f).finish now (.ok ()), buffer := b, processed := x.processed ++ [f] } := by
  obtain ⟨hprocessed, -, -⟩ := h.of_fresh hp
  refine .ended ⟨.inl rfl, Option.some_ne_none _, holds, breaks_of_length_le (by simp [hprocessed]),
    fun _ => ?_⟩
  refine ⟨List.concat_ne_nil _ _, ?_, r.length_whole carried, length⟩
  rw [hprocessed, List.nil_append, List.flatMap_singleton, Frame.segment, kind]
  rfl

theorem Regular.opens (h : x.Regular) (hp : x.receiver.phase = .fresh) {length offset : Nat}
    (hr : r.result = none) (kind : f.pduType? = some .firstFrame)
    (announced : Pdu.announced? f.payload = some (length, offset)) (long : Pdu.singleLimit < length)
    (holds : b.Holds (r.opened f length offset).taken) (hlength : b.bytes.length = length) :
    Open
      { receiver := r.opened f length offset, buffer := b, processed := x.processed ++ [f] } := by
  obtain ⟨hprocessed, -, -⟩ := h.of_fresh hp
  have hsegment : f.segment = f.payload.drop offset := by
    rw [Frame.segment, kind, announced]
    rfl
  have hshort : ((f.payload.drop offset).take length).length < length := by
    obtain ⟨hoffset, -⟩ := Pdu.offset_of_announced? announced
    have hlong : 7 < length := long
    rw [List.length_take, List.length_drop, f.length_payload]
    omega
  refine ⟨hr, ?_, hlength, holds, hshort, ?_⟩
  · exact ⟨f, [], offset, by rw [hprocessed]; rfl, kind, announced, rfl, inOrder_nil⟩
  · rw [hprocessed, List.nil_append, List.flatMap_singleton, hsegment]
    rw [List.length_take] at hshort
    exact List.take_of_length_le (by omega)

theorem Regular.of_open (h : x.Regular) (hp : x.receiver.phase ≠ .fresh)
    (hr : x.receiver.phase ≠ .received) (hf : x.receiver.phase ≠ .failed) : x.Open := by
  cases h with
  | fresh phase => exact absurd phase hp
  | open_ phase opened => exact opened
  | ended ended => exact absurd ended.phase (not_or.mpr ⟨hr, hf⟩)

theorem Regular.turn (h : x.Regular) (now after : Micros) (frame : Option Frame)
    (budget : Budget) (accepted : Bool) :
    ∃ y, x.react? (.turn now after frame budget accepted) = some y ∧
      y.receiver = x.receiver.react (.turn now after frame budget accepted) ∧ y.Regular := by
  have idle (hp : x.receiver.phase ≠ .fresh) (hc : x.receiver.phase ≠ .awaitConsecutive) :
      x.receiver.takesIn (.turn now after frame budget accepted) = none := if_neg (by simp [hp, hc])
  have busy {f : Frame} (hr : x.receiver.result = none) (ht : x.receiver.expired? now = none)
      (hp : x.receiver.phase = .fresh ∨ x.receiver.phase = .awaitConsecutive)
      (hf : frame = some f) :
      x.receiver.takesIn (.turn now after frame budget accepted) = some f :=
      (if_pos ⟨hr, ht, hp⟩).trans hf
  have does := x.receiver.step_does now frame budget
  generalize hm : x.receiver.step now frame budget = move at does
  have reacts : x.receiver.react (.turn now after frame budget accepted) =
      (move.1.finish accepted after).1 := by
    rw [Receiver.react, hm]
  cases does with
  | closed latched => exact react?_passes (if_neg (by simp [latched])) reacts h
  | expires running expired =>
    exact react?_passes (if_neg (by simp [expired])) reacts (h.fail running now rfl _)
  | fails running timely phase unfit =>
    cases frame with
    | none =>
      exact react?_passes (ite_self _)
        reacts (h.fail running now (r := x.receiver.noteReply now) rfl _)
    | some f =>
      have hb : x.buffer.take? x.receiver f (.turn now after (some f) budget accepted) =
          some x.buffer := by
        rw [Buffer.take?, if_pos phase]
        exact Buffer.open?_unfit (unfit f rfl)
      exact react?_takes (busy running timely (.inl phase) rfl) hb reacts
        (h.refuse phase now f (r := x.receiver.noteReply now) rfl _)
  | @rejects f length offset error running timely phase input kind announced refused =>
    have hb : x.buffer.take? x.receiver f (.turn now after frame budget accepted) =
        some x.buffer := by
      rw [Buffer.take?, if_pos phase]
      exact Buffer.open?_refused kind announced refused
    exact react?_takes (busy running timely (.inl phase) input) hb reacts
      (h.refuse phase now f (r := x.receiver.noteReply now) rfl _)
  | @single f rest running timely phase input kind short carried reserved =>
    obtain ⟨-, hbuffer, -⟩ := h.of_fresh phase
    obtain ⟨b, hb, length, holds⟩ :=
      Buffer.open?_single (r := x.receiver) kind short carried reserved
    exact react?_takes (busy running timely (.inl phase) input)
      (by rwa [Buffer.take?, if_pos phase, hbuffer]) reacts
      (h.complete phase now (x.receiver.noteReply now) kind carried holds length)
  | @first f length offset rest running timely phase input kind physical full
      announced long reserved =>
    obtain ⟨-, hbuffer, -⟩ := h.of_fresh phase
    obtain ⟨b, hb, hlength, holds⟩ := Buffer.open?_first kind physical full announced long reserved
    have hopen :=
      h.opens phase (r := x.receiver.noteReply now) running kind announced long holds hlength
    exact react?_takes (busy running timely (.inl phase) input)
      (by rwa [Buffer.take?, if_pos phase, hbuffer]) reacts
      (.open_ ReceiverPhase.noConfusion (hopen.congr rfl rfl rfl rfl))
  | offers running timely phase =>
    refine react?_passes (idle (by simp [phase]) (by simp [phase])) reacts ?_
    have hopen := h.of_open (by simp [phase]) (by simp [phase]) (by simp [phase])
    cases accepted with
    | true => exact .open_ ReceiverPhase.noConfusion (hopen.congr rfl rfl rfl rfl)
    | false => exact h.congr rfl rfl rfl rfl rfl
  | holds running timely phase input =>
    exact react?_passes (idle (by simp [phase]) (by simp [phase]))
      reacts (h.congr rfl rfl rfl rfl rfl)
  | @consumes f running timely phase input =>
    have hopen : Open { x with receiver := x.receiver.noteReply now } :=
      (h.of_open (by simp [phase]) (by simp [phase]) (by simp [phase])).congr rfl rfl rfl rfl
    obtain ⟨b, hb, regular⟩ := hopen.consume phase now f
    exact react?_takes (busy running timely (.inr phase) input)
      ((if_neg (by simp [phase])).trans hb) reacts regular
  | waits running timely phase input =>
    have hidle : x.receiver.takesIn (.turn now after frame budget accepted) = none := by
      rw [input]
      exact ite_self _
    exact react?_passes hidle reacts (h.congr rfl rfl rfl rfl rfl)
  | stuck running timely ended =>
    have hidle : x.receiver.takesIn (.turn now after frame budget accepted) = none := by
      rcases ended with phase | phase <;> exact idle (by simp [phase]) (by simp [phase])
    exact react?_passes hidle reacts (h.congr rfl rfl rfl rfl rfl)

theorem Regular.outcome (h : x.Regular) (now : Micros) (ack : Ack) :
    ∃ y, x.react? (.outcome now ack) = some y ∧ y.receiver = x.receiver.react (.outcome now ack) ∧
      y.Regular := by
  have learns := x.receiver.onAck_learns now ack
  generalize reacts : x.receiver.onAck now ack = r at learns
  cases learns with
  | closed ended =>
    exact react?_passes (if_neg (by rcases ended with hp | hp <;> simp [hp])) reacts h
  | fails open_ =>
    have running : x.receiver.result = none := by
      cases h with
      | fresh phase running => exact running
      | open_ phase opened => exact opened.running
      | ended ended => exact absurd ended.phase (not_or.mpr open_)
    exact react?_passes (if_neg (by simp)) reacts (h.fail running now rfl _)
  | unasked open_ phase => exact react?_passes (if_neg (by simp [phase])) reacts h
  | confirmed phase held =>
    have hopen := h.of_open (by simp [phase]) (by simp [phase]) (by simp [phase])
    exact react?_passes ((if_pos ⟨phase, rfl⟩).trans held) reacts
      (.open_ ReceiverPhase.noConfusion (hopen.congr rfl rfl rfl rfl))
  | @replays f phase held =>
    have hopen : Open { x with receiver := x.receiver.confirmed now } :=
      (h.of_open (by simp [phase]) (by simp [phase]) (by simp [phase])).congr rfl rfl rfl rfl
    obtain ⟨b, hb, regular⟩ := hopen.consume rfl now f
    exact react?_takes ((if_pos ⟨phase, rfl⟩).trans held) hb reacts regular

theorem Regular.react (h : x.Regular) (input : Endpoint.Input) :
    ∃ y, x.react? input = some y ∧ y.receiver = x.receiver.react input ∧ y.Regular := by
  cases input with
  | turn now after frame budget accepted => exact h.turn now after frame budget accepted
  | outcome now ack => exact h.outcome now ack
  | blockSize | separation => exact react?_passes rfl rfl (h.congr rfl rfl rfl rfl rfl)

theorem Regular.run (h : x.Regular) (inputs : List Endpoint.Input) :
    ∃ y, x.run? inputs = some y ∧ y.receiver = x.receiver.run inputs ∧ y.Regular := by
  induction inputs generalizing x with
  | nil => exact ⟨x, rfl, rfl, h⟩
  | cons input inputs ih =>
    obtain ⟨y, hy, hreceiver, hregular⟩ := h.react input
    obtain ⟨z, hz, hreceiver', hregular'⟩ := ih hregular
    refine ⟨z, ?_, ?_, hregular'⟩
    · rw [run?, List.foldlM_cons, hy]
      exact hz
    · rw [hreceiver', hreceiver, Receiver.run, Receiver.run, List.foldl_cons]

/-- What a receiver has put together, whatever it has been given. -/
structure Sound (x : Gathering) : Prop where
  holds : x.buffer.Holds x.receiver.taken
  opened : x.receiver.result = none → x.receiver.phase ≠ .fresh →
    ∃ first rest start, x.processed = first :: rest ∧ first.pduType? = some .firstFrame ∧
      Pdu.announced? first.payload = some (x.receiver.expected, start) ∧
    x.buffer.offset ≤ x.receiver.expected ∧ x.buffer.bytes.length = x.receiver.expected ∧
    x.receiver.sequence.toNat = (1 + rest.length) % 16 ∧ InOrder rest
  unopened : x.receiver.phase = .fresh → x.processed = []
  breaks : x.Breaks
  whole : x.receiver.result = some (.ok ()) → ∃ first rest, x.processed = first :: rest ∧
    InOrder rest ∧ x.buffer.message? x.receiver = some x.receiver.message ∧
    x.receiver.message = (first.segment ++ rest.flatMap Frame.segment).take x.receiver.expected ∧
    x.receiver.message.length = x.receiver.expected
  empty : x.receiver.result ≠ some (.ok ()) → x.buffer.message? x.receiver = some [] ∧
    x.receiver.message = []

theorem Ended.message_eq (h : x.Ended) (hr : x.receiver.result = some (.ok ())) :
    x.receiver.message = x.receiver.taken ∧
    x.buffer.message? x.receiver = some x.receiver.taken := by
  obtain ⟨-, -, hlength, hbytes⟩ := h.whole hr
  constructor
  · rw [Receiver.message, hr]
    exact List.take_of_length_le (Nat.le_of_eq hlength)
  · rw [Buffer.message?, hr]
    dsimp only
    rw [slice?_zero (Nat.le_of_eq hbytes.symm), ← hlength, ← h.holds.offset, h.holds.bytes]

theorem Ended.inOrder {first : Frame} (h : x.Ended) (hr : x.receiver.result = some (.ok ()))
    (hp : x.processed = first :: rest) : InOrder rest := by
  intro i f hf
  cases hbreach : f.breach? (i + 1) with
  | none => rfl
  | some error => cases hr.symm.trans (h.breaks first rest hp i f error hf hbreach).2

theorem message?_eq_nil (b : Buffer) (hr : r.result ≠ some (.ok ())) :
    b.message? r = some [] ∧ r.message = [] := by
  rw [Buffer.message?, Receiver.message]
  cases h : r.result with
  | none => exact ⟨rfl, rfl⟩
  | some result =>
    cases result with
    | ok => exact absurd h hr
    | error => exact ⟨rfl, rfl⟩

theorem Regular.sound (h : x.Regular) : x.Sound where
  holds := by
    cases h with
    | fresh phase running processed buffer taken =>
      rw [buffer, taken]
      exact ⟨rfl, rfl⟩
    | open_ phase opened => exact opened.holds
    | ended ended => exact ended.holds
  opened hr hp := by
    cases h with
    | fresh phase => exact absurd phase hp
    | open_ phase opened =>
      obtain ⟨first, rest, start, hprocessed, kind, announced, sequence, inOrder⟩ := opened.opened
      exact ⟨first, rest, start, hprocessed, kind, announced, opened.holds.offset ▸
        Nat.le_of_lt opened.unfinished, opened.length, sequence, inOrder⟩
    | ended ended => exact absurd hr ended.latched
  unopened hp := (h.of_fresh hp).1
  breaks := by
    cases h with
    | fresh phase running processed => exact breaks_of_length_le (by simp [processed])
    | open_ phase opened =>
      obtain ⟨first, rest, start, hprocessed, -, -, -, inOrder⟩ := opened.opened
      exact breaks_of_inOrder hprocessed inOrder
    | ended ended => exact ended.breaks
  whole hr := by
    cases h with
    | fresh phase running => cases running.symm.trans hr
    | open_ phase opened => cases opened.running.symm.trans hr
    | ended ended =>
      obtain ⟨hne, htaken, hlength, -⟩ := ended.whole hr
      obtain ⟨first, rest, hprocessed⟩ := List.exists_cons_of_ne_nil hne
      obtain ⟨hmessage, hread⟩ := ended.message_eq hr
      refine ⟨first, rest, hprocessed, ended.inOrder hr hprocessed, hmessage ▸ hread,
        ?_, hmessage ▸ hlength⟩
      rw [hmessage, htaken, hprocessed, List.flatMap_cons]
  empty := message?_eq_nil x.buffer

/-- Whatever a new receiver is given, no access to its buffer is out of range, frames after the
first one are taken in order until one breaks it, and a message received is what the frames
processed bring. -/
theorem gathering_sound {address : Address} {blockSize : UInt8} {separation : SeparationTime}
    {budget rest : Budget} (h : Receiver.create address blockSize separation budget = .ok (r, rest))
    (inputs : List Endpoint.Input) :
    ∃ x, run? { receiver := r } inputs = some x ∧ x.receiver = r.run inputs ∧ x.Sound := by
  obtain ⟨rfl, -⟩ := Receiver.create_ok h
  have hfresh : Regular { receiver := .initial address blockSize separation } :=
    .fresh rfl rfl rfl rfl rfl
  obtain ⟨x, hx, hreceiver, hregular⟩ := hfresh.run inputs
  exact ⟨x, hx, hreceiver, hregular.sound⟩

theorem gathering_sound_heldBack :
    ∃ r rest x, Receiver.create (.physical 0x10 0xF1) 0 .zero ⟨132⟩ = .ok (r, rest) ∧
    run? { receiver := r } Endpoint.heldBack = some x ∧ x.processed.length = 2 ∧
    x.receiver.message = [0, 1, 2, 3, 4, 5, 6, 7, 8, 9] ∧ x.Sound := by
  have created : Receiver.create (.physical 0x10 0xF1) 0 .zero ⟨132⟩ =
      .ok (.initial (.physical 0x10 0xF1) 0 .zero, ⟨100⟩) := rfl
  have seen : (run? { receiver := .initial (.physical 0x10 0xF1) 0 .zero } Endpoint.heldBack).map
      (fun x => (x.processed.length, x.receiver.message)) =
      some (2, [0, 1, 2, 3, 4, 5, 6, 7, 8, 9]) := rfl
  obtain ⟨x, hx, -, sound⟩ := gathering_sound created Endpoint.heldBack
  rw [hx, Option.map_some, Option.some.injEq, Prod.mk.injEq] at seen
  exact ⟨_, _, x, created, hx, seen.1, seen.2, sound⟩

end Gathering
end CanTransport
