import CanTransport.Proofs.Conformance
import CanTransport.Proofs.SoftLimits
import Mathlib.Data.List.Basic

/-! # When a transfer runs out of time

A transfer fails of time in three ways only: its frame is not confirmed, the flow control that it
waits for does not come, or the next consecutive frame does not. Each watch shows what can be told
from the history of the transfer: since when a frame has been offered without success, and when it
was last let on. The soft limits have no part in it.
-/
namespace CanTransport

def TransferError.isTimeout : TransferError → Bool
  | timeoutA | timeoutBs | timeoutCr => true
  | _ => false

def Late (since : Option Micros) (now : Micros) : Prop :=
  ∃ began, since = some began ∧ 1000 < (now - began) / 1000

theorem Stopwatch.exceeded_iff_late {w : Stopwatch} {now : Micros} :
    w.exceeded now 1000 = true ↔ Late w.startedAt now := by
  cases hw : w.startedAt with
  | none => simp [exceeded, isRunning, Late, hw]
  | some began => simp [exceeded, isRunning, millis, elapsed, Late, hw]

theorem Stopwatch.startedAt_ensure (w : Stopwatch) (now : Micros) :
    (w.ensure now).startedAt = w.startedAt.or (some now) := by
  cases hw : w.startedAt <;> simp [ensure, isRunning, start, hw]

theorem Stopwatch.first_exceeded_iff {first second : Stopwatch} {now : Micros}
    {a b error : TransferError} :
    (if first.exceeded now 1000 then some a else if second.exceeded now 1000 then some b else none)
      = some error ↔ (error = a ∧ Late first.startedAt now) ∨
      (error = b ∧ ¬Late first.startedAt now ∧ Late second.startedAt now) := by
  rw [← exceeded_iff_late, ← exceeded_iff_late]
  split
  · next past => simp [past, eq_comm (a := error)]
  · next within =>
    split
    · next past => simp [within, past, eq_comm (a := error)]
    · next timely => simp [within, timely]

section Ends
variable {now after : Micros} {frame : Option Frame} {budget : Budget} {accepted : Bool}
  {error : TransferError}

namespace Sender
variable {s : Sender}

theorem expired?_eq_some : s.expired? now = some error ↔
    (error = .timeoutA ∧ Late s.nAs.startedAt now) ∨
      (error = .timeoutBs ∧ ¬Late s.nAs.startedAt now ∧ Late s.nBs.startedAt now) :=
  Stopwatch.first_exceeded_iff

/-- A running sender ends with a timeout exactly if a limit is past. -/
theorem Does.timeout_iff {move : Move Sender} (does : s.Does now frame move) (tidy : s.Tidy)
    (running : s.result = none) (timeout : error.isTimeout = true) :
    ((move.finish accepted after).2 = .finished (.error error) ↔ s.expired? now = some error) ∧
      ((move.finish accepted after).1.result = some (.error error) ↔
        s.expired? now = some error) := by
  cases does with
  | closed latched => cases running.symm.trans latched
  | expires _ expired => simp [fail, finish, expired]
  | fails _ timely reason =>
    cases reason with
    | unsendable | unexpected | invalid =>
      cases error <;> simp_all [fail, finish, TransferError.isTimeout]
    | overflow => split <;> cases error <;> simp_all [fail, finish, TransferError.isTimeout]
  | offers _ timely due sends =>
    cases accepted with
    | false => simp [transmit, notePace, running, timely]
    | true => cases sends <;> simp [transmit, notePace, running, timely]
  | pauses _ timely | waits _ timely => simp [notePace, running, timely]
  | resumes input heard =>
    obtain ⟨-, timely, -⟩ := running_of_hears heard
    simp [resume, startPace, notePace, running, timely]
  | postpones heard =>
    obtain ⟨-, timely, -⟩ := running_of_hears heard
    simp [notePace, running, timely]
  | overruns heard =>
    obtain ⟨-, timely, -⟩ := running_of_hears heard
    cases error <;> simp_all [fail, finish, TransferError.isTimeout]
  | stuck _ _ ended => exact absurd ended (not_or.mpr (tidy.open_ running))

theorem Learns.not_timeout {ack : Ack} {s' : Sender} (learns : s.Learns now ack s')
    (running : s.result = none) (timeout : error.isTimeout = true) :
    s'.result ≠ some (.error error) := by
  cases learns with
  | closed => simp [running]
  | fails => cases error <;> simp_all [finish, TransferError.isTimeout]
  | single | last => simp [finish]
  | first | block | next => simp [startPace, running]

end Sender

namespace Receiver
variable {r : Receiver}

theorem expired?_eq_some : r.expired? now = some error ↔
    (error = .timeoutA ∧ Late r.nAr.startedAt now) ∨
      (error = .timeoutCr ∧ ¬Late r.nAr.startedAt now ∧ Late r.nCr.startedAt now) :=
  Stopwatch.first_exceeded_iff

theorem Consumes.not_timeout {f : Frame} {r' : Receiver} (consumes : r.Consumes now f r')
    (running : r.result = none) (timeout : error.isTimeout = true) :
    r'.result ≠ some (.error error) := by
  cases consumes with
  | unexpected | misplaced => cases error <;> simp_all [finish, TransferError.isTimeout]
  | last => simp [finish]
  | block | next => simp [owe, absorbed, running]

theorem Learns.not_timeout {ack : Ack} {r' : Receiver} (learns : r.Learns now ack r')
    (running : r.result = none) (timeout : error.isTimeout = true) :
    r'.result ≠ some (.error error) := by
  cases learns with
  | closed | unasked => simp [running]
  | confirmed => simp [Receiver.confirmed, running]
  | fails => cases error <;> simp_all [finish, TransferError.isTimeout]
  | replays => exact (consume_consumes _ now _).not_timeout running timeout

theorem outcome_eq_finished {result : TransferResult} :
    r.outcome = .finished result ↔ r.result = some result := by
  unfold outcome
  split <;> simp_all

def continues (r : Receiver) (f : Frame) : Bool :=
  f.pduType? = some .consecutiveFrame ∧ lowNibble (f.byte 0) = r.sequence

def Untimed (move : Move Receiver) : Prop :=
      ∀ accepted after error, TransferError.isTimeout error = true →
  (move.finish accepted after).2 ≠ .finished (.error error) ∧
  (move.finish accepted after).1.result ≠ some (.error error)

theorem untimed_settle (h : ∀ error, TransferError.isTimeout error = true →
    r.result ≠ some (.error error)) :
    Untimed r.settle :=
  fun _ _ error timeout => ⟨fun he => h error timeout (outcome_eq_finished.mp he), h error timeout⟩

theorem untimed_fail (h : error.isTimeout = false) : Untimed (r.fail now error) := by
  refine untimed_settle fun error' timeout he => ?_
  obtain rfl : error = error' := by simpa [finish] using he
  exact Bool.false_ne_true (h.symm.trans timeout)

theorem untimed_openWith (hr : r.result = none) (f : Frame) (budget : Budget) :
    Untimed (r.openWith now f budget).1 := by
  unfold openWith
  split
  · unfold takeSingle
    dsimp only
    split
    · exact untimed_fail rfl
    · split
      · exact untimed_fail rfl
      · exact untimed_settle fun _ _ => by simp [finish]
  · unfold takeFirst
    split
    · exact untimed_fail rfl
    · split
      · exact untimed_fail rfl
      · split
        · exact untimed_fail rfl
        · split
          · exact fun _ _ => (untimed_fail rfl : Untimed (r.fail now .bufferOverflow)) true now
          · exact fun _ _ error _ => ⟨by simp, by simp [owe, hr]⟩
  · exact untimed_fail rfl

/-- A running receiver ends with a timeout exactly if a limit is past. -/
theorem step_timeout_iff (tidy : r.Tidy) (running : r.result = none)
    (timeout : error.isTimeout = true) :
    (((r.step now frame budget).1.finish accepted after).2 = .finished (.error error) ↔
      r.expired? now = some error) ∧
      (((r.step now frame budget).1.finish accepted after).1.result = some (.error error) ↔
        r.expired? now = some error) := by
  have never {move : Move Receiver} (h : Untimed move) (timely : r.expired? now = none) :
      ((move.finish accepted after).2 = .finished (.error error) ↔ r.expired? now = some error) ∧
        ((move.finish accepted after).1.result = some (.error error) ↔
          r.expired? now = some error) := by
    have hne : ¬r.expired? now = some error := by simp [timely]
    exact ⟨iff_of_false (h accepted after error timeout).1 hne,
      iff_of_false (h accepted after error timeout).2 hne⟩
  have begins (phase : r.phase = .fresh) (timely : r.expired? now = none) :
      Untimed (r.step now frame budget).1 := by
    have hp : (r.noteReply now).phase = .fresh := phase
    cases frame with
    | none =>
      simp only [step, running, timely, act, hp]
      exact untimed_fail rfl
    | some f =>
      simp only [step, running, timely, act, hp]
      exact untimed_openWith (show (r.noteReply now).result = none from running) f budget
  by_cases fresh : r.phase = .fresh ∧ r.expired? now = none
  · exact never (begins fresh.1 fresh.2) fresh.2
  · have does := r.step_does now frame budget
    generalize r.step now frame budget = move at does ⊢
    cases does with
    | closed latched => cases running.symm.trans latched
    | expires _ expired => simp [fail, settle, outcome, finish, expired]
    | fails _ timely phase | rejects _ timely phase | single _ timely phase
    | first _ timely phase =>
      exact absurd ⟨phase, timely⟩ fresh
    | offers _ timely =>
      refine never (fun accepted _ _ _ => ?_) timely
      cases accepted <;> exact ⟨by simp [sendFlow], by simp [sendFlow, noteReply, running]⟩
    | holds _ timely =>
      exact never (fun _ _ _ _ => ⟨by simp, by simp [hold, noteReply, running]⟩) timely
    | consumes _ timely =>
      refine never (untimed_settle fun error timeout => ?_) timely
      exact (consume_consumes _ now _).not_timeout running timeout
    | waits _ timely => exact never (fun _ _ _ _ => ⟨by simp, by simp [noteReply, running]⟩) timely
    | stuck _ _ ended => exact absurd ended (not_or.mpr (tidy.open_ running))

end Receiver
end Ends

namespace Endpoint

/-- What lets an endpoint go on waiting for its peer. -/
inductive Milestone
  | firstSent
  | blockSent
  | putOff
  | flowSent
  | gathered

def Input.now? : Input → Option Micros
  | .turn now _ _ _ _ | .outcome now _ => some now
  | .blockSize _ | .separation _ => none

/-- The outcomes of the first frame and of the last frame of a block, a wait that is put up with,
the outcome of the own flow control, and a consecutive frame that is taken in, at once or from where
it is held. -/
def reaches (r : Endpoint) (input : Input) (milestone : Milestone) : Bool :=
  match r, input, milestone with
  | sender s, .outcome _ _, .firstSent => s.phase = .awaitFirstAck
  | sender s, .outcome _ _, .blockSent => s.phase = .awaitConsecutiveAck ∧ s.blockComplete = true
  | sender s, .turn now _ frame _ _, .putOff =>
    s.hears now frame = some .wait ∧ s.waitLimit.any (· < Sender.countWait s.waits) = false
  | receiver r, .outcome _ _, .flowSent => r.phase = .awaitFlowAck
  | receiver r, .outcome _ _, .gathered => r.phase = .awaitFlowAck ∧ r.held.any r.continues = true
  | receiver r, .turn _ _ frame _ _, .gathered =>
    r.phase = .awaitConsecutive ∧ frame.any r.continues = true
  | _, _, _ => false

def offers (r : Endpoint) (now : Micros) (frame : Option Frame) (budget : Budget) : Bool :=
  (r.step now frame budget).1.frame?.isSome

/-- A hard limit of the endpoint is past. -/
def Overdue (r : Endpoint) (now : Micros) (error : TransferError) : Prop :=
  match r with
  | sender s => s.expired? now = some error
  | receiver r => r.expired? now = some error

def FailsWith (r : Endpoint) (now after : Micros) (frame : Option Frame)
    (budget : Budget) (accepted : Bool) (error : TransferError) : Prop :=
  ((r.step now frame budget).1.finish accepted after).2 = .finished (.error error)

theorem offers_sender (s : Sender) (now : Micros) (frame : Option Frame) (budget : Budget) :
    (sender s).offers now frame budget = (s.step now frame).frame?.isSome := by
  rw [offers, step]
  cases s.step now frame <;> rfl

theorem offers_receiver (r : Receiver) (now : Micros) (frame : Option Frame) (budget : Budget) :
    (receiver r).offers now frame budget = (r.step now frame budget).1.frame?.isSome := by
  simp only [offers, step]
  cases (r.step now frame budget).1 <;> rfl

variable {r : Endpoint} {now after : Micros} {frame : Option Frame} {budget : Budget}
  {accepted : Bool} {error : TransferError}

/-- A turn ends a running transfer with a timeout exactly if a limit is past. -/
theorem Tidy.failsWith_iff (h : r.Tidy) (running : r.result = none)
    (timeout : error.isTimeout = true) :
    (r.FailsWith now after frame budget accepted error ↔ r.Overdue now error) ∧
      ((r.react (.turn now after frame budget accepted)).result = some (.error error) ↔
        r.Overdue now error) := by
  cases r with
  | sender s =>
    simp only [FailsWith, react, step, Move.finish_map_eq]
    exact (s.step_does now frame).timeout_iff h running timeout
  | receiver r =>
    simp only [FailsWith, react, step, Move.finish_map_eq]
    exact Receiver.step_timeout_iff h running timeout

theorem result_setting {input : Input} (silent : input.now? = none) :
    (r.react input).result = r.result := by
  cases input with
  | turn | outcome => cases silent
  | blockSize | separation => cases r <;> rfl

/-- The news of an outcome does not end a transfer with a timeout. -/
theorem onAck_not_timeout (running : r.result = none) (timeout : error.isTimeout = true)
    (ack : Ack) :
    (r.onAck now ack).result ≠ some (.error error) := by
  cases r with
  | sender s => exact (s.onAck_learns now ack).not_timeout running timeout
  | receiver r => exact (r.onAck_learns now ack).not_timeout running timeout

end Endpoint

/-- An endpoint, and since when it has been waiting. -/
structure Vigil where
  endpoint : Endpoint
  /-- The first offer, taken or refused, of the frame that no outcome has confirmed. -/
  offered : Option Micros := none
  /-- A frame has been taken, and its outcome is still to come. -/
  owed : Bool := false
  /-- When a milestone was last reached. -/
  last : Endpoint.Milestone → Option Micros := fun _ => none

namespace Vigil

def react (x : Vigil) (input : Endpoint.Input) : Vigil where
  endpoint := x.endpoint.react input
  offered := match input with
    | .turn now _ frame budget _ =>
      if x.endpoint.offers now frame budget then x.offered.or (some now) else x.offered
    | .outcome _ _ => none
    | .blockSize _ | .separation _ => x.offered
  owed := match input with
    | .turn now _ frame budget accepted =>
      x.owed || (x.endpoint.offers now frame budget && accepted)
    | .outcome _ _ => false
    | .blockSize _ | .separation _ => x.owed
  last milestone := if x.endpoint.reaches input milestone then input.now? else x.last milestone

/-- The time of the latest of some milestones. -/
def latest (x : Vigil) (milestones : List Endpoint.Milestone) : Option Micros :=
  (milestones.filterMap x.last).max?

/-- Since when a sender waits for flow control, if it does. -/
def flowSince (x : Vigil) : Option Micros := x.latest [.firstSent, .blockSent, .putOff]

/-- Since when a receiver waits for a consecutive frame, if it does. -/
def frameSince (x : Vigil) : Option Micros := x.latest [.flowSent, .gathered]

/-- What there can be at a reading of the clock, which never goes back: every frame that is taken
has one outcome at most, and there is no other outcome. -/
inductive Arises : Vigil → Micros → Prop
  | sender {address : Address} {message : List UInt8} {kind : MessageType}
      {waitLimit : Option UInt8} {budget rest : Budget} {s : Sender}
      (created : Sender.create address message kind waitLimit budget = .ok (s, rest))
      (clock : Micros) :
      Arises { endpoint := .sender s } clock
  | receiver {address : Address} {blockSize : UInt8} {separation : SeparationTime}
      {budget rest : Budget} {r : Receiver}
      (created : Receiver.create address blockSize separation budget = .ok (r, rest))
      (clock : Micros) :
      Arises { endpoint := .receiver r } clock
  | turn {x : Vigil} {clock now after : Micros} (earlier : Arises x clock) (frame : Option Frame)
      (budget : Budget) (accepted : Bool) (start : clock ≤ now) (stop : now ≤ after) :
      Arises (x.react (.turn now after frame budget accepted)) after
  | outcome {x : Vigil} {clock now : Micros} (earlier : Arises x clock)
      (ack : Ack) (start : clock ≤ now) (owed : x.owed = true) :
      Arises (x.react (.outcome now ack)) now
  | setting {x : Vigil} {clock : Micros} (earlier : Arises x clock) {input : Endpoint.Input}
      (silent : input.now? = none) :
      Arises (x.react input) clock

variable {x : Vigil} {clock now after : Micros} {input : Endpoint.Input}
  {milestones : List Endpoint.Milestone}

theorem last_react_le (past : ∀ milestone began, x.last milestone = some began → began ≤ now)
    (timed : input.now? = some now) (milestone : Endpoint.Milestone) (began : Micros)
    (h : (x.react input).last milestone = some began) : began ≤ now := by
  dsimp only [react] at h
  split at h
  · exact Nat.le_of_eq (Option.some.inj (h.symm.trans timed))
  · exact past milestone began h

theorem latest_react (past : ∀ milestone began, x.last milestone = some began → began ≤ now)
    (timed : input.now? = some now) :
    (x.react input).latest milestones =
      if milestones.any (x.endpoint.reaches input) then some now else x.latest milestones := by
  unfold latest
  split
  · next reached =>
    obtain ⟨milestone, hm, hreached⟩ := List.any_eq_true.mp reached
    refine List.max?_eq_some_iff.mpr ⟨List.mem_filterMap.mpr ⟨milestone, hm, ?_⟩, fun began hb =>
      ?_⟩
    · exact (if_pos hreached).trans timed
    · obtain ⟨other, -, ho⟩ := List.mem_filterMap.mp hb
      exact last_react_le past timed other began ho
  · next missed =>
    refine congrArg _ (List.filterMap_congr fun milestone hm => if_neg fun hreached => missed ?_)
    exact List.any_eq_true.mpr ⟨milestone, hm, hreached⟩

end Vigil

section Watched
variable {now after : Micros} {frame : Option Frame} {budget : Budget} {accepted owed : Bool}
  {offered since : Option Micros}

namespace Sender
variable {s : Sender}

/-- The watches show since when a frame has been offered, and since when flow control is waited for.
-/
structure Watched (s : Sender) (offered since : Option Micros) : Prop where
  confirm : s.nAs.startedAt = offered
  flow : s.nBs.startedAt = if s.isAwaiting then since else none

theorem Watched.rest (h : s.Watched offered since) :
    (s.notePace now).Watched offered since := ⟨h.confirm, h.flow⟩

theorem Watched.idle (h : s.Watched offered since) (idle : s.isAwaiting = false) :
    s.nBs.startedAt = none := by
  rw [h.flow, if_neg (by simp [idle])]

theorem Does.watched {move : Move Sender} (does : s.Does now frame move) (tidy : s.Tidy)
    (h : s.Watched offered since) (running : (move.finish accepted after).1.result = none) :
    (move.finish accepted after).1.Watched
      (if move.frame?.isSome then offered.or (some now) else offered)
      (if s.hears now frame = some .wait ∧ s.waitLimit.any (· < countWait s.waits) =
        false then some now else since) := by
  have silent (deaf : s.hears now frame ≠ some .wait) :
      (if s.hears now frame = some .wait ∧ s.waitLimit.any (· < countWait s.waits) =
        false then some now else since) = since :=
    if_neg fun hw => deaf hw.1
  cases does with
  | closed latched => cases running.symm.trans latched
  | expires | fails | overruns => cases running
  | offers _ _ _ sends =>
    have idle : s.isAwaiting = false := by
      rcases sends.phase with hp | hp | hp <;> simp [isAwaiting, hp]
    rw [silent (by simp [sends.unheard])]
    have confirm : (s.nAs.ensure now).startedAt = offered.or (some now) := by
      rw [Stopwatch.startedAt_ensure, h.confirm]
    cases accepted with
    | false => exact ⟨confirm, h.flow⟩
    | true => cases sends <;> exact ⟨confirm, h.idle idle⟩
  | pauses _ _ paced =>
    rw [silent (by simp [unheard_of_dueAt paced])]
    exact h.rest
  | waits _ _ idle =>
    rw [silent (by simp [unheard_of_idle idle])]
    exact h.rest
  | resumes input heard =>
    rw [silent (by simp [heard])]
    exact ⟨h.confirm, rfl⟩
  | postpones heard within =>
    have putOff : s.hears now frame = some .wait ∧ s.waitLimit.any (· < countWait s.waits) =
        false := ⟨heard, within⟩
    rw [if_pos putOff]
    exact ⟨h.confirm, rfl⟩
  | stuck running _ ended => exact absurd ended (not_or.mpr (tidy.open_ running))

theorem Learns.watched {ack : Ack} {s' : Sender} (learns : s.Learns now ack s') (tidy : s.Tidy)
    (h : s.Watched offered since) (running : s'.result = none) : s'.Watched none
      (if s.phase = .awaitFirstAck ∨ s.phase = .awaitConsecutiveAck ∧ s.blockComplete =
        true then some now else since) := by
  cases learns with
  | closed ended => exact absurd ended (not_or.mpr (tidy.open_ running))
  | fails | single | last => cases running
  | first hp =>
    rw [if_pos (.inl hp)]
    exact ⟨rfl, rfl⟩
  | block hp _ full =>
    rw [if_pos (.inr ⟨hp, full⟩)]
    exact ⟨rfl, rfl⟩
  | next hp _ room =>
    rw [if_neg (by simp [hp, room])]
    exact ⟨rfl, h.idle (by simp [isAwaiting, hp])⟩

end Sender

namespace Receiver
variable {r : Receiver}

/-- The watches show since when flow control has been offered, and since when a consecutive frame is
waited for. -/
structure Watched (r : Receiver) (offered since : Option Micros) (owed : Bool) : Prop where
  confirm : r.nAr.startedAt = offered
  owed : owed = true → r.phase = .awaitFlowAck
  frame : r.nCr.startedAt = if r.phase = .awaitConsecutive then since else none

theorem Watched.noted (h : r.Watched offered since owed) :
    (r.noteReply now).Watched offered since owed :=
  ⟨h.confirm, h.owed, h.frame⟩

theorem Watched.idle (h : r.Watched offered since owed) (idle : r.phase ≠ .awaitConsecutive) :
    r.nCr.startedAt = none := by
  rw [h.frame, if_neg idle]

theorem Watched.unowed (h : r.Watched offered since owed) (phase : r.phase ≠ .awaitFlowAck) :
    owed = false :=
  Bool.of_not_eq_true fun he => phase (h.owed he)

theorem Consumes.watched {f : Frame} {r' : Receiver} (consumes : r.Consumes now f r')
    (h : r.Watched offered since false) (phase : r.phase = .awaitConsecutive)
    (running : r'.result = none) :
    r.continues f = true ∧ r'.Watched offered (some now) false := by
  cases consumes with
  | unexpected | misplaced | last => cases running
  | block kind number => exact ⟨by simp [continues, kind, number], h.confirm, nofun, rfl⟩
  | next kind number =>
    exact ⟨by simp [continues, kind, number], h.confirm, nofun, (if_pos phase).symm⟩

theorem Does.watched {move : Move Receiver × Budget} (does : r.Does now frame budget move)
    (tidy : r.Tidy) (h : r.Watched offered since owed)
    (running : (move.1.finish accepted after).1.result = none) :
    (move.1.finish accepted after).1.Watched
      (if move.1.frame?.isSome then offered.or (some now) else offered)
      (if r.phase = .awaitConsecutive ∧ frame.any r.continues = true then some now else since)
      (owed || (move.1.frame?.isSome && accepted)) := by
  have missed (miss : ¬(r.phase = .awaitConsecutive ∧ frame.any r.continues = true)) :
      (if r.phase = .awaitConsecutive ∧ frame.any r.continues = true then some now else since) =
      since := if_neg miss
  cases does with
  | closed latched => cases running.symm.trans latched
  | expires | fails | rejects | single => cases running
  | first _ _ phase =>
    obtain rfl := h.unowed (by simp [phase])
    rw [missed (by simp [phase])]
    exact ⟨h.confirm, nofun, h.idle (by simp [phase])⟩
  | offers _ _ phase =>
    obtain rfl := h.unowed (by simp [phase])
    rw [missed (by simp [phase])]
    have confirm : (r.nAr.ensure now).startedAt = offered.or (some now) := by
      rw [Stopwatch.startedAt_ensure, h.confirm]
    cases accepted with
    | true => exact ⟨confirm, fun _ => rfl, h.idle (by simp [phase])⟩
    | false => exact ⟨confirm, nofun, h.frame⟩
  | holds _ _ phase =>
    rw [missed (by simp [phase])]
    exact ⟨h.confirm, fun _ => phase, h.frame⟩
  | consumes _ _ phase input =>
    obtain rfl := h.unowed (by simp [phase])
    obtain ⟨fits, watched⟩ := (consume_consumes _ now _).watched h.noted phase running
    have gathered : r.phase = .awaitConsecutive ∧ frame.any r.continues = true :=
      ⟨phase, by rw [input]; exact fits⟩
    rw [if_pos gathered]
    exact watched
  | waits _ _ _ input =>
    rw [missed (by simp [input])]
    exact ⟨h.confirm, fun ho => h.owed (by simpa [Move.frame?] using ho), h.frame⟩
  | stuck running _ ended => exact absurd ended (not_or.mpr (tidy.open_ running))

theorem Learns.watched {ack : Ack} {r' : Receiver} (learns : r.Learns now ack r') (tidy : r.Tidy)
    (h : r.Watched offered since true) (running : r'.result = none) :
    r'.Watched none (if r.phase = .awaitFlowAck then some now else since) false := by
  have phase := h.owed rfl
  rw [if_pos phase]
  have confirmed : (r.confirmed now).Watched none (some now) false := ⟨rfl, nofun, rfl⟩
  cases learns with
  | closed ended => exact absurd ended (not_or.mpr (tidy.open_ running))
  | fails => cases running
  | unasked _ hp => exact absurd phase hp
  | confirmed => exact confirmed
  | replays => exact ((consume_consumes _ now _).watched confirmed rfl running).2

end Receiver
end Watched

namespace Vigil
variable {x : Vigil} {clock : Micros} {input : Endpoint.Input}

/-- The watches show what has been told of the endpoint. -/
def Watched (x : Vigil) : Prop :=
  match x.endpoint with
  | .sender s => s.Watched x.offered x.flowSince
  | .receiver r => r.Watched x.offered x.frameSince x.owed

structure Kept (x : Vigil) (clock : Micros) : Prop where
  tidy : x.endpoint.Tidy
  past : ∀ milestone began, x.last milestone = some began → began ≤ clock
  watched : x.endpoint.result = none → x.Watched

theorem kept_sender (address : Address) (message : List UInt8) (kind : MessageType)
    (waitLimit : Option UInt8) (clock : Micros) :
    Kept { endpoint := .sender (.initial address message kind waitLimit) } clock where
  tidy := Sender.tidy_initial address message kind waitLimit
  past _ _ h := by cases h
  watched _ := by
    have idle : (Sender.initial address message kind waitLimit).isAwaiting = false := by
      unfold Sender.isAwaiting
      rcases Sender.phase_initial address message kind waitLimit with hp | hp <;> rw [hp]
    exact ⟨rfl, by rw [idle]; rfl⟩

theorem kept_receiver (address : Address) (blockSize : UInt8) (separation : SeparationTime)
    (clock : Micros) :
    Kept { endpoint := .receiver (.initial address blockSize separation) } clock where
  tidy := ⟨rfl, rfl⟩
  past _ _ h := by cases h
  watched _ := ⟨rfl, nofun, rfl⟩

theorem Kept.later (h : x.Kept clock) {now : Micros} (start : clock ≤ now)
    (milestone : Endpoint.Milestone) (began : Micros) (reached : x.last milestone = some began) :
    began ≤ now :=
  Nat.le_trans (h.past milestone began reached) start

theorem Kept.before (h : x.Kept clock) (running : (x.react input).endpoint.result = none) :
    x.endpoint.result = none := by
  refine Option.eq_none_iff_forall_ne_some.mpr fun result hr => ?_
  have final : (x.endpoint.react input).result = x.endpoint.result :=
    congrArg (·.2.1) (h.tidy.final_react hr input)
  cases hr.symm.trans (final.symm.trans running)

theorem watched_sender {s : Sender} (he : x.endpoint = .sender s) :
    x.Watched ↔ s.Watched x.offered x.flowSince := by
  rw [Watched, he]

theorem watched_receiver {r : Receiver} (he : x.endpoint = .receiver r) :
    x.Watched ↔ r.Watched x.offered x.frameSince x.owed := by
  rw [Watched, he]

theorem react_sender {s : Sender} (he : x.endpoint = .sender s) (input : Endpoint.Input) :
    (x.react input).endpoint = .sender (s.react input) := by
  rw [← Endpoint.react_sender, ← he]
  rfl

theorem react_receiver {r : Receiver} (he : x.endpoint = .receiver r) (input : Endpoint.Input) :
    (x.react input).endpoint = .receiver (r.react input) := by
  rw [← Endpoint.react_receiver, ← he]
  rfl

theorem Kept.setting (h : x.Kept clock) (silent : input.now? = none) :
    (x.react input).Kept clock := by
  have missed (milestone : Endpoint.Milestone) : x.endpoint.reaches input milestone = false := by
    cases input with
    | turn | outcome => cases silent
    | blockSize | separation => cases x.endpoint <;> rfl
  have last : (x.react input).last = x.last := funext fun milestone => if_neg (by simp [missed])
  have flow : (x.react input).flowSince = x.flowSince := by
    rw [flowSince, latest, last, flowSince, latest]
  have frame : (x.react input).frameSince = x.frameSince := by
    rw [frameSince, latest, last, frameSince, latest]
  refine ⟨Endpoint.kept_tidy.react h.tidy input, by rw [last]; exact h.past, fun running => ?_⟩
  have watched := h.watched (h.before running)
  cases he : x.endpoint with
  | sender s =>
    rw [watched_sender he] at watched
    rw [watched_sender (react_sender he input), flow]
    cases input with
    | turn | outcome => cases silent
    | blockSize | separation => exact watched
  | receiver r =>
    rw [watched_receiver he] at watched
    rw [watched_receiver (react_receiver he input), frame]
    cases input with
    | turn | outcome => cases silent
    | blockSize | separation => exact ⟨watched.confirm, watched.owed, watched.frame⟩

theorem Kept.turn (h : x.Kept clock) {now after : Micros} (frame : Option Frame)
    (budget : Budget) (accepted : Bool) (start : clock ≤ now) (stop : now ≤ after) :
    (x.react (.turn now after frame budget accepted)).Kept after := by
  have timed : (Endpoint.Input.turn now after frame budget accepted).now? = some now := rfl
  refine ⟨Endpoint.kept_tidy.react h.tidy (.turn now after frame budget accepted),
    fun milestone began reached =>
    Nat.le_trans (last_react_le (h.later start) timed milestone began reached) stop, fun running =>
      ?_⟩
  have tidy := h.tidy
  have watched := h.watched (h.before running)
  cases he : x.endpoint with
  | sender s =>
    rw [he] at tidy
    rw [watched_sender he] at watched
    rw [react_sender he] at running
    have reaches : [Endpoint.Milestone.firstSent, .blockSent, .putOff].any
        (x.endpoint.reaches (.turn now after frame budget accepted)) = true ↔
        s.hears now frame = some .wait ∧
        s.waitLimit.any (· < Sender.countWait s.waits) = false := by
      simp [he, Endpoint.reaches]
    rw [watched_sender (react_sender he _), flowSince, latest_react (h.later start) timed,
      if_congr reaches rfl rfl]
    have offered : (x.react (.turn now after frame budget accepted)).offered =
        if (s.step now frame).frame?.isSome then x.offered.or (some now) else x.offered := by
      simp only [react, he, Endpoint.offers_sender]
    rw [offered]
    exact (s.step_does now frame).watched tidy watched running
  | receiver r =>
    rw [he] at tidy
    rw [watched_receiver he] at watched
    rw [react_receiver he] at running
    have reaches : [Endpoint.Milestone.flowSent, .gathered].any
        (x.endpoint.reaches (.turn now after frame budget accepted)) = true ↔
        r.phase = .awaitConsecutive ∧ frame.any r.continues = true := by
      simp [he, Endpoint.reaches]
    rw [watched_receiver (react_receiver he _), frameSince, latest_react (h.later start) timed,
      if_congr reaches rfl rfl]
    have offered : (x.react (.turn now after frame budget accepted)).offered =
        if (r.step now frame budget).1.frame?.isSome then x.offered.or (some now) else
          x.offered := by
      simp only [react, he, Endpoint.offers_receiver]
    have owed : (x.react (.turn now after frame budget accepted)).owed =
        (x.owed || ((r.step now frame budget).1.frame?.isSome && accepted)) := by
      simp only [react, he, Endpoint.offers_receiver]
    rw [offered, owed]
    exact (r.step_does now frame budget).watched tidy watched running

theorem Kept.outcome (h : x.Kept clock) {now : Micros} (ack : Ack) (start : clock ≤ now)
    (owed : x.owed = true) :
    (x.react (.outcome now ack)).Kept now := by
  have timed : (Endpoint.Input.outcome now ack).now? = some now := rfl
  refine ⟨Endpoint.kept_tidy.react h.tidy (.outcome now ack), last_react_le (h.later start) timed,
    fun running => ?_⟩
  have tidy := h.tidy
  have watched := h.watched (h.before running)
  cases he : x.endpoint with
  | sender s =>
    rw [he] at tidy
    rw [watched_sender he] at watched
    rw [react_sender he] at running
    have reaches : [Endpoint.Milestone.firstSent, .blockSent, .putOff].any
        (x.endpoint.reaches (.outcome now ack)) = true ↔ s.phase = .awaitFirstAck ∨
        s.phase = .awaitConsecutiveAck ∧ s.blockComplete = true := by
      simp [he, Endpoint.reaches]
    rw [watched_sender (react_sender he _), flowSince, latest_react (h.later start) timed,
      if_congr reaches rfl rfl]
    exact (s.onAck_learns now ack).watched tidy watched running
  | receiver r =>
    rw [he] at tidy
    rw [watched_receiver he, owed] at watched
    rw [react_receiver he] at running
    have reaches : [Endpoint.Milestone.flowSent, .gathered].any
        (x.endpoint.reaches (.outcome now ack)) = true ↔ r.phase = .awaitFlowAck := by
      simp [he, Endpoint.reaches]
      exact fun hp _ => hp
    rw [watched_receiver (react_receiver he _), frameSince, latest_react (h.later start) timed,
      if_congr reaches rfl rfl]
    exact (r.onAck_learns now ack).watched tidy watched running

theorem Arises.kept (h : x.Arises clock) : x.Kept clock := by
  induction h with
  | sender created clock =>
    obtain rfl := Sender.create_ok created
    exact kept_sender _ _ _ _ clock
  | receiver created clock =>
    obtain ⟨rfl, -⟩ := Receiver.create_ok created
    exact kept_receiver _ _ _ clock
  | turn _ frame budget accepted start stop ih => exact ih.turn frame budget accepted start stop
  | outcome _ ack start owed ih => exact ih.outcome ack start owed
  | setting _ silent ih => exact ih.setting silent

variable {now after : Micros} {frame : Option Frame} {budget : Budget} {accepted : Bool}
  {error : TransferError}

/-- Which limit is past can be told from what has been done to the endpoint. -/
theorem Kept.overdue_iff (h : x.Kept clock) (running : x.endpoint.result = none) :
    x.endpoint.Overdue now error ↔ (error = .timeoutA ∧ Late x.offered now) ∨
    (error = .timeoutBs ∧ ¬Late x.offered now ∧
      (x.endpoint.phase = .sender .awaitFirstFlow ∨ x.endpoint.phase = .sender .awaitFlow) ∧
      Late x.flowSince now) ∨
    (error = .timeoutCr ∧ ¬Late x.offered now ∧ x.endpoint.phase = .receiver .awaitConsecutive ∧
      Late x.frameSince now) := by
  have watched := h.watched running
  cases he : x.endpoint with
  | sender s =>
    rw [watched_sender he] at watched
    rw [Endpoint.Overdue, Sender.expired?_eq_some, watched.confirm, watched.flow]
    by_cases awaits : s.isAwaiting = true
    · simp [awaits, Endpoint.phase, ← Sender.isAwaiting_iff]
    · simp [awaits, Endpoint.phase, ← Sender.isAwaiting_iff, Late]
  | receiver r =>
    rw [watched_receiver he] at watched
    rw [Endpoint.Overdue, Receiver.expired?_eq_some, watched.confirm, watched.frame]
    by_cases phase : r.phase = .awaitConsecutive
    · simp [phase, Endpoint.phase]
    · simp [phase, Endpoint.phase, Late]

/-- A step ends a running transfer for want of time exactly if a frame has been offered for more
than a thousand milliseconds and not been confirmed, or else flow control or a consecutive frame has
been waited for that long. Nothing else brings about these errors, and the soft limits have no say
in how a transfer goes. -/
theorem times_out_iff (h : x.Arises clock) :
    (∀ {now after : Micros} {frame : Option Frame} {budget : Budget} {accepted : Bool},
      x.endpoint.result = none →
      (x.endpoint.FailsWith now after frame budget accepted .timeoutA ↔ Late x.offered now) ∧
      (x.endpoint.FailsWith now after frame budget accepted .timeoutBs ↔ ¬Late x.offered now ∧
        (x.endpoint.phase = .sender .awaitFirstFlow ∨ x.endpoint.phase = .sender .awaitFlow) ∧
          Late (x.latest [.firstSent, .blockSent, .putOff]) now) ∧
      (x.endpoint.FailsWith now after frame budget accepted .timeoutCr ↔ ¬Late x.offered now ∧
        x.endpoint.phase = .receiver .awaitConsecutive ∧
        Late (x.latest [.flowSent, .gathered]) now)) ∧
    (∀ (input : Endpoint.Input) (error : TransferError), error.isTimeout = true →
      x.endpoint.result = none →
      ((x.react input).endpoint.result = some (.error error) ↔ ∃ now after frame budget accepted,
        input = .turn now after frame budget accepted ∧
        x.endpoint.FailsWith now after frame budget accepted error)) ∧
    ∀ r : Endpoint, r.unhurried = x.endpoint.unhurried → ∀ inputs,
      (r.run inputs).unhurried = (x.endpoint.run inputs).unhurried := by
  have kept := h.kept
  refine ⟨fun running => ⟨?_, ?_, ?_⟩, fun input error timeout running =>
    ⟨fun failed => ?_, ?_⟩, fun r alike =>
    Endpoint.unhurried_run alike⟩
  · rw [(kept.tidy.failsWith_iff running rfl).1, kept.overdue_iff running]
    simp
  · rw [(kept.tidy.failsWith_iff running rfl).1, kept.overdue_iff running]
    simp [flowSince]
  · rw [(kept.tidy.failsWith_iff running rfl).1, kept.overdue_iff running]
    simp [frameSince]
  · change (x.endpoint.react input).result = some (.error error) at failed
    cases input with
    | turn now after frame budget accepted =>
      have overdue := (kept.tidy.failsWith_iff running timeout).2.mp failed
      exact ⟨now, after, frame, budget, accepted, rfl,
        (kept.tidy.failsWith_iff running timeout).1.mpr overdue⟩
    | outcome now ack => exact absurd failed (Endpoint.onAck_not_timeout running timeout ack)
    | blockSize | separation =>
      rw [Endpoint.result_setting rfl, running] at failed
      cases failed
  · rintro ⟨now, after, frame, budget, accepted, rfl, fails⟩
    exact (kept.tidy.failsWith_iff running timeout).2.mpr
      ((kept.tidy.failsWith_iff running timeout).1.mp fails)

def untried : Sender :=
  .initial (.physical 0x10 0xF1) ((List.range 20).map UInt8.ofNat) .diagnostics none

def putOff : Vigil :=
  let created : Vigil := { endpoint := .sender untried }
  (((created.react (.turn 0 10 none ⟨948⟩ false)).react (.turn 400000 400010 none ⟨948⟩ true)).react
    (.outcome 900000 .success)).react
      (.turn 1500000 1500000 (some (Pdu.flowControl (.physical 0xF1 0x10) .wait 0 .zero))
        ⟨948⟩ true)

theorem times_out_iff_putOff : putOff.Arises 1500000 ∧ putOff.endpoint.result = none ∧
    putOff.latest [.firstSent, .blockSent, .putOff] = some 1500000 ∧
    ¬putOff.endpoint.FailsWith 2500999 2500999 none ⟨948⟩ true .timeoutBs ∧
    putOff.endpoint.FailsWith 2501000 2501000 none ⟨948⟩ true .timeoutBs := by
  have created : Sender.create (.physical 0x10 0xF1) ((List.range 20).map UInt8.ofNat)
      .diagnostics none ⟨1000⟩ =
      .ok (untried, ⟨948⟩) := rfl
  have arises : putOff.Arises 1500000 :=
    ((((Arises.sender created 0).turn none ⟨948⟩ false (by decide) (by decide)).turn none
      ⟨948⟩ true (by decide)
      (by decide)).outcome .success (by decide) (by decide)).turn _ ⟨948⟩ true (by decide)
      (by decide)
  have running : putOff.endpoint.result = none := by decide
  have since : putOff.latest [.firstSent, .blockSent, .putOff] = some 1500000 := by decide
  refine ⟨arises, running, since, fun fails => ?_, ?_⟩
  · obtain ⟨-, -, began, hb, late⟩ := ((times_out_iff arises).1 running).2.1.mp fails
    obtain rfl := Option.some.inj (since.symm.trans hb)
    exact absurd late (by decide)
  · refine ((times_out_iff arises).1 running).2.1.mpr
      ⟨fun ⟨_, hb, _⟩ => ?_, .inr (by decide), _, since, by decide⟩
    cases hb

end Vigil
end CanTransport
