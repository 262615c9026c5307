import CanTransport.Proofs.Dialogue

/-! # One conversation over a line that loses nothing

A sender and a receiver are joined by two queues. A frame is handed over where it is waited for,
frames may be refused as often as they like, and every frame accepted is confirmed at any later
time. The consecutive frames between one flow control and the next make a block.
-/
namespace CanTransport

/-- The two ends, the frames under way, oldest first, the successes still to be reported to each
end, and every frame accepted so far. -/
structure Tandem where
  sender : Sender
  receiver : Receiver
  forth : List Frame := []
  back : List Frame := []
  unheardForth : Nat := 0
  unheardBack : Nat := 0
  log : List Frame := []

namespace Tandem

def stepSender (t : Tandem) (now : Micros) (frame : Option Frame) (accepted : Bool)
    (after : Micros) : Tandem :=
  let move := t.sender.step now frame
  let written := move.written accepted
  { t with
    sender := (move.finish accepted after).1
    forth := t.forth ++ written
    unheardForth := t.unheardForth + written.length
    log := t.log ++ written }

def stepReceiver (t : Tandem) (now : Micros) (frame : Option Frame)
    (budget : Budget) (accepted : Bool) (after : Micros) : Tandem :=
  let move := (t.receiver.step now frame budget).1
  let written := move.written accepted
  { t with
    receiver := (move.finish accepted after).1
    back := t.back ++ written
    unheardBack := t.unheardBack + written.length
    log := t.log ++ written }

/-- The receiver opens with the first frame, and then takes frames where it waits for them and holds
none back. -/
def ReadyToTake (r : Receiver) : Prop := r.phase = .fresh ∨ r.isAwaiting = true ∧ r.held = none

/-- What may happen next, as long as no limit is exceeded. -/
inductive Step : Tandem → Tandem → Prop
  | send {t : Tandem} (now after : Micros) (accepted : Bool)
      (timely : t.sender.expired? now = none) :
    Step t (t.stepSender now none accepted after)
  | heed {t : Tandem} {f : Frame} {rest : List Frame} (now after : Micros) (accepted : Bool)
    (arrived : t.back = f :: rest) (awaits : t.sender.isAwaiting = true)
    (timely : t.sender.expired? now = none) :
    Step t ({ t with back := rest }.stepSender now (some f) accepted after)
  | reply {t : Tandem} (now after : Micros) (budget : Budget) (accepted : Bool)
      (opened : t.receiver.phase ≠ .fresh)
    (timely : t.receiver.expired? now = none) :
    Step t (t.stepReceiver now none budget accepted after)
  | take {t : Tandem} {f : Frame} {rest : List Frame} (now after : Micros)
      (budget : Budget) (accepted : Bool)
    (arrived : t.forth = f :: rest) (ready : ReadyToTake t.receiver)
    (timely : t.receiver.expired? now = none)
    (room : (t.sender.message.length : Int) ≤ budget.remaining)
    (fits : budget.remaining ≤ Budget.top) :
    Step t ({ t with forth := rest }.stepReceiver now (some f) budget accepted after)
  | hearSender {t : Tandem} (now : Micros) (unheard : 0 < t.unheardForth) :
    Step t { t with sender := t.sender.onAck now .success, unheardForth := t.unheardForth - 1 }
  | hearReceiver {t : Tandem} (now : Micros) (unheard : 0 < t.unheardBack) :
    Step t { t with receiver := t.receiver.onAck now .success, unheardBack := t.unheardBack - 1 }
  | setBlockSize {t : Tandem} (value : UInt8) :
      Step t { t with receiver := t.receiver.setBlockSize value }
  | setSeparation {t : Tandem} (value : SeparationTime) (valid : value.isValid = true) :
    Step t { t with receiver := t.receiver.setSeparation value }

end Tandem

end CanTransport
