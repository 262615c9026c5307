import CanTransport.Proofs.Attribution
import CanTransport.Proofs.Calm

/-! # What a tick in calm surroundings does to each endpoint

First it is told the outcomes of its frames. If it runs, its turn comes once: it takes one step, or
rests until its next frame is due.
-/
namespace CanTransport
open CanTransport.Action

inductive Endpoint.Hears (shows : Micros → Prop) (r : Endpoint) : Endpoint → Prop
  | nothing : Hears shows r r
  | outcome {r' : Endpoint} {clock : Micros} (h : Hears shows r r') (shown : shows clock)
      (ack : Ack) :
    Hears shows r (r'.onAck clock ack)

theorem Endpoint.Hears.trans {shows : Micros → Prop} {r r' r'' : Endpoint} (h : Hears shows r r')
    (h' : Hears shows r' r'') : Hears shows r r'' := by
  induction h' with
  | nothing => exact h
  | outcome _ shown ack ih => exact ih.outcome shown ack

namespace Scene

/-- From one scene to the other nothing happens to the endpoint of that number. -/
structure Spares (id : EndpointId) (c c' : Scene) : Prop where
  endpoint : c'.station.endpoint? id = c.station.endpoint? id
  entries : ∀ e ∈ c'.station.outbox, e.writer = some id → ∃ e ∈ c.station.outbox, e.writer = some id
  frames : framesOf id c'.events = framesOf id c.events

/-- From one scene to the other endpoints are told outcomes of frames that they have written. -/
structure Hears (shows : Micros → Prop) (c c' : Scene) : Prop where
  held : c'.held = c.held
  station : ∃ endpoints outbox, c'.station = { c.station with endpoints, outbox }
  endpoint : ∀ id, Option.Rel (Endpoint.Hears shows) (c.station.endpoint? id)
    (c'.station.endpoint? id)
  spares : ∀ id, (∀ e ∈ c.station.outbox, e.writer ≠ some id) → Spares id c c'

variable {id : EndpointId} {shows : Micros → Prop} {c c₁ c' : Scene}

theorem Spares.refl (id : EndpointId) (c : Scene) :
    Spares id c c := ⟨rfl, fun e he hw => ⟨e, he, hw⟩, rfl⟩

theorem Spares.trans (h : Spares id c c₁) (h' : Spares id c₁ c') : Spares id c c' := by
  refine ⟨h'.endpoint.trans h.endpoint, fun e he hw => ?_, h'.frames.trans h.frames⟩
  obtain ⟨e₁, he₁, hw₁⟩ := h'.entries e he hw
  exact h.entries e₁ he₁ hw₁

theorem Spares.unlock (h : Spares id c c') (lock : Lock) : Spares id c (c'.unlock lock) :=
  ⟨h.endpoint, h.entries, h.frames⟩

theorem Spares.of_eq (he : c'.station.endpoints = c.station.endpoints)
    (ho : c'.station.outbox = c.station.outbox) (hv : c'.events = c.events) : Spares id c c' :=
  ⟨by rw [Station.endpoint?, he, Station.endpoint?], fun e he hw => ⟨e, ho ▸ he, hw⟩, by rw [hv]⟩

theorem Spares.unwritten (h : Spares id c c') (hc : ∀ e ∈ c.station.outbox, e.writer ≠ some id) :
    ∀ e ∈ c'.station.outbox, e.writer ≠ some id := by
  intro e he hw
  obtain ⟨e', he', hw'⟩ := h.entries e he hw
  exact hc e' he' hw'

theorem Hears.refl (shows : Micros → Prop) (c : Scene) : Hears shows c c := by
  refine ⟨rfl, ⟨_, _, rfl⟩, fun id => ?_, fun id _ => .refl id c⟩
  cases c.station.endpoint? id with
  | none => exact .none
  | some r => exact .some .nothing

theorem Hears.before {r : Endpoint} (h : Hears shows c c') (hr : c'.station.endpoint? id = some r) :
    ∃ r₀, c.station.endpoint? id = some r₀ ∧ Endpoint.Hears shows r₀ r := by
  have hrel := h.endpoint id
  rw [hr] at hrel
  generalize c.station.endpoint? id = x at hrel
  cases hrel with
  | some h => exact ⟨_, rfl, h⟩

theorem Hears.trans (h : Hears shows c c₁) (h' : Hears shows c₁ c') : Hears shows c c' := by
  refine ⟨h'.held.trans h.held, ?_, fun id => ?_, fun id hu => ?_⟩
  · obtain ⟨endpoints, outbox, he⟩ := h.station
    obtain ⟨endpoints', outbox', he'⟩ := h'.station
    exact ⟨endpoints', outbox', by rw [he', he]⟩
  · have h₁ := h.endpoint id
    have h₂ := h'.endpoint id
    generalize c.station.endpoint? id = x at h₁
    generalize c₁.station.endpoint? id = y at h₁ h₂
    generalize c'.station.endpoint? id = z at h₂
    cases h₁ with
    | none => exact h₂
    | some hr =>
      cases h₂ with
      | some hr' => exact .some (hr.trans hr')
  · exact (h.spares id hu).trans (h'.spares id ((h.spares id hu).unwritten hu))

theorem Hears.under {lock : Lock} (h : Hears shows (c.lock lock) c₁) :
    Hears shows c (c₁.unlock lock) := by
  refine ⟨?_, h.station, h.endpoint, fun id hu => ?_⟩
  · change c₁.held.erase lock = c.held
    rw [h.held]
    exact List.erase_cons_head _ _
  · obtain ⟨he, hn, hf⟩ := h.spares id hu
    exact ⟨he, hn, hf⟩

/-- Entries of the outbox may be let go of and be given their outcomes. -/
theorem Hears.outbox (outbox : Outbox) {change : Station → Station}
    (hs : change c.station = { c.station with outbox })
    (hw : ∀ e ∈ outbox, ∃ e' ∈ c.station.outbox, e'.writer = e.writer) :
    Hears shows c (c.access change) := by
  have hstation : (c.access change).station = { c.station with outbox } := hs
  refine ⟨rfl, ⟨c.station.endpoints, outbox, hstation⟩, fun id => ?_, fun id _ =>
    ⟨?_, fun e he hwr => ?_, rfl⟩⟩
  · rw [hstation]
    exact (Hears.refl shows c).endpoint id
  · rw [hstation]
    rfl
  · rw [hstation] at he
    obtain ⟨e', he', hw'⟩ := hw e he
    exact ⟨e', he', hw'.trans hwr⟩

theorem Hears.reported (c : Scene) (ack : Ack) : Hears shows c (c.note (.reported ack)) := by
  refine ⟨rfl, ⟨_, _, rfl⟩, (Hears.refl shows c).endpoint, fun id _ =>
    ⟨rfl, fun e he hw => ⟨e, he, hw⟩, ?_⟩⟩
  simp [note, framesOf, writesIn, Event.write?]

theorem Hears.onAck {e : OutboxEntry} {clock : Micros} (h : Hears shows c c₁) (shown : shows clock)
    (he : e ∈ c.station.outbox) (hw : e.writer = some id) (ack : Ack) :
    Hears shows c (c₁.access (·.modifyEndpoint id (·.onAck clock ack))) := by
  obtain ⟨endpoints, outbox, hs⟩ := h.station
  refine ⟨h.held, ⟨_, outbox, by rw [Station.access_station, hs]; rfl⟩, fun i => ?_, fun i hu => ?_⟩
  · have hi := h.endpoint i
    rw [Station.access_station, Station.endpoint?_modifyEndpoint]
    generalize c.station.endpoint? i = x at hi
    generalize c₁.station.endpoint? i = y at hi
    cases hi with
    | none => exact .none
    | some hr =>
      refine .some ?_
      split
      · exact hr.outcome shown ack
      · exact hr
  · have hne : i ≠ id := by
      rintro rfl
      exact hu e he hw
    obtain ⟨hendpoint, hentries, hframes⟩ := h.spares i hu
    refine ⟨?_, hentries, hframes⟩
    rw [Station.access_station, Station.endpoint?_modifyEndpoint, hendpoint]
    simp [hne]

end Scene

namespace Station
open Scene

variable {w : Calm} {c c' : Scene} {id : EndpointId}

theorem calm_pollOutcome {a : Bool} (h : pollOutcome.Yields w.Answers c a c') :
    Hears w.Shows c c' := by
  obtain ⟨taken, c₁, h₁, -, rfl⟩ := yields_bind.mp h
  rcases calm_withLock_cases h₁ with ⟨-, rfl⟩ | ⟨b, c₂, hb, -, rfl⟩
  · exact .refl _ _
  · apply Hears.under
    obtain ⟨ack, c₃, ha, hb⟩ := yields_bind.mp hb
    obtain ⟨_, rfl, rfl⟩ := yields_ask.mp ha
    cases ack with
    | none =>
      obtain ⟨-, rfl⟩ := hb
      exact .refl _ _
    | some ack =>
      obtain ⟨-, rfl⟩ := calm_modifyGet.mp hb
      exact (Hears.reported _ ack).trans
        (.outbox _ (record_outbox _ ack) fun e he => Outbox.mem_record he)

theorem calm_drainUpTo {fuel : Nat} {a : Unit} (h : (drainUpTo fuel).Yields w.Answers c a c') :
    Hears w.Shows c c' := by
  induction fuel generalizing c with
  | zero =>
    obtain ⟨-, rfl⟩ := h
    exact .refl _ _
  | succ fuel ih =>
    obtain ⟨taken, c₁, h₁, h⟩ := yields_bind.mp h
    have hp := calm_pollOutcome h₁
    cases taken with
    | false =>
      obtain ⟨-, rfl⟩ := h
      exact hp
    | true => exact hp.trans (ih h)

theorem calm_ackEndpoint {ack : Ack} {a : Unit} (h : (ackEndpoint id ack).Yields w.Answers c a c') :
    c' = c ∨ ∃ clock, w.Shows clock ∧ c' = c.access (·.modifyEndpoint id (·.onAck clock ack)) := by
  obtain ⟨_, c₁, h₁, -, rfl⟩ := yields_bind.mp h
  rcases calm_withLock_cases h₁ with ⟨-, rfl⟩ | ⟨b, c₂, hb, -, rfl⟩
  · exact .inl rfl
  · obtain ⟨clock, c₃, hnow, hb⟩ := yields_bind.mp hb
    obtain ⟨shown, rfl⟩ := calm_now.mp hnow
    rw [calm_modify.mp hb]
    exact .inr ⟨clock, shown, unlock_access_lock c _ _⟩

theorem calm_deliverEntry {e : OutboxEntry} {a : Bool}
    (h : (deliverEntry e).Yields w.Answers c a c') :
    c' = c ∨ ∃ id ack clock, e.writer = some id ∧ w.Shows clock ∧
      c' = c.access (·.modifyEndpoint id (·.onAck clock ack)) := by
  obtain ⟨s, c₁, h₁, h⟩ := yields_bind.mp h
  obtain ⟨rfl, rfl⟩ := calm_get.mp h₁
  split at h
  · next id ack hw ho =>
    obtain ⟨_, c₂, h₂, -, rfl⟩ := yields_bind.mp h
    refine (calm_ackEndpoint h₂).imp_right ?_
    rintro ⟨clock, shown, hc⟩
    exact ⟨id, ack, clock, (Option.filter_eq_some_iff.mp hw).1, shown, hc⟩
  · exact .inl h.2

theorem calm_deliverNext {a : Option Bool} (h : deliverNext.Yields w.Answers c a c') :
    Hears w.Shows c c' := by
  obtain ⟨entry, c₁, h₁, h₂⟩ := yields_bind.mp h
  rcases calm_withLock_cases h₁ with ⟨rfl, rfl⟩ | ⟨entry, c₂, hb, rfl, rfl⟩
  · obtain ⟨-, rfl⟩ := h₂
    exact .refl _ _
  obtain ⟨clock, c₃, hnow, hb⟩ := yields_bind.mp hb
  obtain ⟨-, rfl⟩ := calm_now.mp hnow
  obtain ⟨rfl, rfl⟩ := calm_modifyGet.mp hb
  rw [unlock_access_lock] at h₂
  have htaken : Hears w.Shows c (c.access fun s => (s.nextDelivery clock).2) :=
    .outbox (c.station.outbox.next clock).2 rfl
      fun e he => ⟨e, (Outbox.next_sublist _ _).subset he, rfl⟩
  cases he : (c.station.nextDelivery clock).1 with
  | none =>
    have hnone : ((c.lock .outbox).station.nextDelivery clock).1 = none := he
    rw [hnone] at h₂
    obtain ⟨-, rfl⟩ := h₂
    exact htaken
  | some e =>
    have hsome : ((c.lock .outbox).station.nextDelivery clock).1 = some e := he
    rw [hsome] at h₂
    obtain ⟨delivered, c₄, hd, -, rfl⟩ := yields_bind.mp h₂
    rcases calm_deliverEntry hd with rfl | ⟨id, ack, told, hw, shown, rfl⟩
    · exact htaken
    · exact htaken.onAck shown (Outbox.next_eq_some he).1 hw ack

theorem calm_deliverUpTo {fuel : Nat} {a : Nat} (h : (deliverUpTo fuel).Yields w.Answers c a c') :
    Hears w.Shows c c' := by
  induction fuel generalizing c a with
  | zero =>
    obtain ⟨-, rfl⟩ := h
    exact .refl _ _
  | succ fuel ih =>
    obtain ⟨delivered, c₁, h₁, h₂⟩ := yields_bind.mp h
    have hp := calm_deliverNext h₁
    cases delivered with
    | none =>
      obtain ⟨-, rfl⟩ := h₂
      exact hp
    | some delivered =>
      obtain ⟨rest, c₂, hr, -, rfl⟩ := yields_bind.mp h₂
      exact hp.trans (ih hr)

theorem calm_settle {a : Nat} (h : settle.Yields w.Answers c a c') : Hears w.Shows c c' := by
  obtain ⟨_, c₁, hd, hr⟩ := yields_bind.mp h
  obtain ⟨s, c₂, hs, hdrain⟩ := yields_bind.mp hd
  obtain ⟨rfl, rfl⟩ := calm_get.mp hs
  obtain ⟨s, c₃, hs, hdeliver⟩ := yields_bind.mp hr
  obtain ⟨rfl, rfl⟩ := calm_get.mp hs
  exact (calm_drainUpTo hdrain).trans (calm_deliverUpTo hdeliver)

theorem calm_startWaiting {a : Unit} (hp : .pending ∉ c.held) (hc : .conversations ∉ c.held)
    (h : startWaiting.Yields w.Answers c a c') : c' = c.access startPending := by
  obtain ⟨_, c₁, h₁, -, rfl⟩ := yields_bind.mp h
  obtain ⟨_, c₂, h₂, -, rfl⟩ := (calm_withLock hp).mp h₁
  obtain ⟨_, c₃, h₃, -, rfl⟩ := (calm_withLock (by simpa [lock] using hc)).mp h₂
  rw [calm_modify.mp h₃, unlock_access_lock]
  exact unlock_access_lock c .pending startPending

theorem calm_receiveFrame {settings : Settings} {a : Option Frame}
    (h : (receiveFrame settings).Yields w.Answers c a c') :
    a = w.inbound.filter settings.admits ∧ (w.inbound = none ∧ c' = c ∨ w.reading c c') := by
  obtain ⟨count, c₁, h₁, h₂⟩ := yields_bind.mp h
  obtain ⟨count, rfl, hcount, rfl⟩ := yields_ask.mp h₁
  split at h₂
  · next hzero =>
    obtain ⟨rfl, rfl⟩ := h₂
    have hnone : w.inbound = none := Classical.byContradiction fun hne => hcount hne hzero
    rw [hnone]
    exact ⟨rfl, .inl ⟨rfl, rfl⟩⟩
  · obtain ⟨frame, c₂, h₃, rfl, rfl⟩ := yields_bind.mp h₂
    obtain ⟨frame, rfl, rfl, hreading⟩ := yields_ask.mp h₃
    exact ⟨rfl, .inr hreading⟩

end Station

namespace Endpoint
variable {r : Endpoint} {now : Micros} {frame : Option Frame} {budget : Budget}

/-- Only a message that begins is paid for and announced. -/
theorem step_onward (h : frame = none ∨ r.isAwaiting = true) :
    (r.step now frame budget).2 = budget ∧ ∀ accepted after length,
      ((r.step now frame budget).1.finish accepted after).2 ≠ .firstFrame length := by
  cases r with
  | sender s =>
    refine ⟨rfl, fun accepted after length => ?_⟩
    rw [step, Move.finish_map_eq]
    exact s.step_silent now after frame accepted length
  | receiver r =>
    simp only [step, Move.finish_map_eq]
    have does := r.step_does now frame budget
    generalize r.step now frame budget = move at does ⊢
    have opened (hp : r.phase = .fresh) {f : Frame} (input : frame = some f) : False := by
      rcases h with h | h
      · cases h.symm.trans input
      · simp [isAwaiting, Receiver.isAwaiting, hp] at h
    cases does with
    | single running timely phase input | first running timely phase input =>
      exact (opened phase input).elim
    | consumes =>
      refine ⟨rfl, fun _ _ _ => ?_⟩
      dsimp only [Receiver.settle, Move.finish, Receiver.outcome]
      split <;> rintro ⟨⟩
    | offers =>
      refine ⟨rfl, fun accepted _ _ => ?_⟩
      cases accepted <;> rintro ⟨⟩
    | closed | expires | fails | rejects | holds | waits | stuck =>
      exact ⟨rfl, fun _ _ _ => by rintro ⟨⟩⟩

end Endpoint

namespace Calm

def Steps (w : Calm) (budget : Budget) (frame : Option Frame) (r r' : Endpoint)
    (outcome : StepOutcome) (sent : List Frame) : Prop :=
  ∃ now after accepted, w.Shows now ∧ w.Shows after ∧ (w.willing = true → accepted = true) ∧
    (r.step now frame budget).1.finish accepted after = (r', outcome) ∧
    (r.step now frame budget).1.written accepted = sent

section Steps
variable {w : Calm} {budget : Budget} {frame : Option Frame} {r r' : Endpoint}
  {outcome : StepOutcome} {sent : List Frame}

theorem sender_steps {s : Sender} (h : w.Steps budget frame (.sender s) r' outcome sent) :
    ∃ s' now after accepted, w.Shows now ∧ w.Shows after ∧ r' = .sender s' ∧
      (s.step now frame).finish accepted after = (s', outcome) := by
  obtain ⟨now, after, accepted, hnow, hafter, -, hfinish, -⟩ := h
  obtain ⟨rfl, rfl⟩ := Prod.mk.inj ((Move.finish_map_eq _ _ _ _).symm.trans hfinish)
  exact ⟨_, now, after, accepted, hnow, hafter, rfl, rfl⟩

theorem receiver_steps {q : Receiver} (h : w.Steps budget frame (.receiver q) r' outcome sent) :
    ∃ q' now after accepted, w.Shows now ∧ w.Shows after ∧ r' = .receiver q' ∧
      (q.step now frame budget).1.finish accepted after = (q', outcome) := by
  obtain ⟨now, after, accepted, hnow, hafter, -, hfinish, -⟩ := h
  obtain ⟨rfl, rfl⟩ := Prod.mk.inj ((Move.finish_map_eq _ _ _ _).symm.trans hfinish)
  exact ⟨_, now, after, accepted, hnow, hafter, rfl, rfl⟩

theorem steps_rest {next : Endpoint} {result : StepOutcome}
    (hm : ∀ now, w.Shows now → (r.step now frame budget).1 = .rest next result)
    (h : w.Steps budget frame r r' outcome sent) : r' = next ∧ outcome = result ∧ sent = [] := by
  obtain ⟨now, after, accepted, hnow, -, -, hfinish, hwritten⟩ := h
  rw [hm now hnow] at hfinish hwritten
  obtain ⟨rfl, rfl⟩ := Prod.mk.inj hfinish
  exact ⟨rfl, rfl, hwritten.symm.trans (Move.written_rest _ _ accepted)⟩

theorem steps_silent (h : w.Steps budget frame r r' outcome sent)
    (hf : frame = none ∨ r.isAwaiting = true) (length : Nat) : outcome ≠ .firstFrame length := by
  obtain ⟨now, after, accepted, -, -, -, hfinish, -⟩ := h
  exact fun he => (Endpoint.step_onward hf).2 accepted after length
    ((congrArg Prod.snd hfinish).trans he)

end Steps

/-- What comes about when an outcome has been passed on. -/
def Heeds (w : Calm) : StepOutcome → Scene → Scene → Prop
  | .firstFrame _, c, c' => w.heeding c c'
  | _, c, c' => c' = c

theorem Heeds.eq {w : Calm} {outcome : StepOutcome} {c c' : Scene} (h : w.Heeds outcome c c')
    (silent : ∀ length, outcome ≠ .firstFrame length) : c' = c := by
  cases outcome with
  | firstFrame length => exact absurd rfl (silent length)
  | inProgress | finished => exact h

theorem heeds_iff {w : Calm} {outcome : StepOutcome} {c c' : Scene} (hh : w.heeding = Eq) :
    w.Heeds outcome c c' ↔ c' = c := by
  cases outcome with
  | firstFrame length =>
    change w.heeding c c' ↔ c' = c
    rw [hh]
    exact eq_comm
  | inProgress | finished => exact Iff.rfl

/-- What an endpoint makes of its turn, when `frame` is still to be had; the last argument is what
is left of that. -/
inductive Turns (w : Calm) (frame : Option Frame) (h : Handle) (r : Endpoint) :
    Endpoint → StepOutcome → List Frame → Option Frame → Prop
  | claim {f : Frame} {budget : Budget} {r' : Endpoint} {outcome : StepOutcome} {sent : List Frame}
    (offered : frame = some f) (accepts : h.accepts f.id = true) (awaits : r.isAwaiting = true)
    (steps : w.Steps budget frame r r' outcome sent) : Turns w frame h r r' outcome sent none
  | step {tickAt : Micros} {budget : Budget} {r' : Endpoint} {outcome : StepOutcome}
      {sent : List Frame}
    (shown : w.Shows tickAt) (due : r.isDue tickAt = true)
    (steps : w.Steps budget none r r' outcome sent) :
    Turns w frame h r r' outcome sent frame
  | pause {tickAt : Micros} (shown : w.Shows tickAt) (early : r.isDue tickAt = false) :
    Turns w frame h r r .inProgress [] frame

end Calm

namespace Scene
variable {id : EndpointId} {c c₁ c' : Scene}

/-- From one scene to the other one endpoint takes a step. -/
structure Advances (id : EndpointId) (r' : Endpoint) (sent : List Frame) (budget : Budget)
    (c c' : Scene) : Prop where
  held : c'.held = c.held
  opened : c'.opened = c.opened
  station : ∃ endpoints outbox, c'.station = { c.station with endpoints, outbox, budget }
  endpoint : c'.station.endpoint? id = some r'
  spares : ∀ i, i ≠ id → Spares i c c'
  frames : framesOf id c'.events = framesOf id c.events ++ sent
  outbox : sent = [] → c'.station.outbox = c.station.outbox

theorem Advances.under {r' : Endpoint} {sent : List Frame} {budget : Budget} {lock : Lock}
    (h : Advances id r' sent budget (c.lock lock) c₁) :
    Advances id r' sent budget c (c₁.unlock lock) := by
  refine ⟨?_, h.opened, h.station, h.endpoint, fun i hi => ?_, h.frames, h.outbox⟩
  · change c₁.held.erase lock = c.held
    rw [h.held]
    exact List.erase_cons_head _ _
  · obtain ⟨he, hn, hf⟩ := h.spares i hi
    exact ⟨he, hn, hf⟩

def listing (h : Handle) : StepOutcome → List Handle
  | .finished _ => [h]
  | _ => []

def passed (c : Scene) (h : Handle) : StepOutcome → Scene
  | .inProgress => c
  | .firstFrame length => c.note (.told h.id (.firstFrame h.address length h.kind))
  | .finished _ => c.access (·.markFinished h)

theorem framesOf_told (events : List Event) (source : EndpointId)
    (notice : Notice) (id : EndpointId) :
    framesOf id (events ++ [.told source notice]) = framesOf id events := by
  simp [framesOf, writesIn, Event.write?]

theorem Spares.told (id : EndpointId) (c : Scene) (source : EndpointId) (notice : Notice) :
    Spares id c (c.note (.told source notice)) :=
      ⟨rfl, fun e he hw => ⟨e, he, hw⟩, framesOf_told _ _ _ _⟩

theorem passed_spares (c : Scene) (h : Handle) (outcome : StepOutcome) (id : EndpointId) :
    Spares id c (c.passed h outcome) := by
  cases outcome with
  | inProgress => exact .refl id c
  | firstFrame length => exact .told id c _ _
  | finished result => exact .of_eq rfl rfl rfl

theorem passed_held (c : Scene) (h : Handle) (outcome : StepOutcome) :
    (c.passed h outcome).held = c.held := by
  cases outcome <;> rfl

theorem passed_opened (c : Scene) (h : Handle) (outcome : StepOutcome) :
    (c.passed h outcome).opened = c.opened := by
  cases outcome with
  | inProgress | firstFrame => rfl
  | finished result => exact opened_of_active rfl

theorem passed_station (c : Scene) (h : Handle) (outcome : StepOutcome) :
    (c.passed h outcome).station =
      { c.station with finished := c.station.finished ++ listing h outcome } := by
  cases outcome with
  | inProgress | firstFrame => simp [passed, listing]
  | finished result => rfl

end Scene

namespace Station
open Scene

variable {w : Calm} {c c' : Scene} {id : EndpointId} {frame : Option Frame}
  {r : Endpoint} {h : Handle}

theorem endpoint?_put_self {s : Station} (hr : s.endpoint? id = some r) (r' : Endpoint) :
    (s.modifyEndpoint id fun _ => r').endpoint? id = some r' := by
  rw [endpoint?_modifyEndpoint, hr]
  simp

theorem endpoint?_put_of_ne (s : Station) {i : EndpointId} (hi : i ≠ id) (r' : Endpoint) :
    (s.modifyEndpoint id fun _ => r').endpoint? i = s.endpoint? i := by
  rw [endpoint?_modifyEndpoint]
  simp [hi]

theorem calm_send {address : Address} {f : Frame} {accepted : Bool} (hfree : .outbox ∉ c.held)
    (hyields : (send id address f).Yields w.Answers c accepted c') :
    (w.willing = true → accepted = true) ∧
      c' = if accepted then (c.note (.accepted id f)).access fun s =>
      { s with outbox := s.outbox.push address id } else c := by
  obtain ⟨sent, c₁, h₁, rfl, rfl⟩ := yields_bind.mp hyields
  obtain ⟨accepted, c₂, hb, rfl, rfl⟩ := (calm_withLock hfree).mp h₁
  obtain ⟨accepted, c₃, hw, hb⟩ := yields_bind.mp hb
  obtain ⟨_, rfl, hwilling, rfl⟩ := yields_ask.mp hw
  cases accepted with
  | false =>
    obtain ⟨rfl, rfl⟩ := hb
    exact ⟨hwilling, unlock_lock c .outbox⟩
  | true =>
    obtain ⟨_, c₄, hpush, rfl, rfl⟩ := yields_bind.mp hb
    obtain rfl := calm_modify.mp hpush
    exact ⟨hwilling, unlock_access_lock (c.note (.accepted id f)) .outbox _⟩

theorem calm_finishStep {f : Frame} {next : Bool → Micros → Endpoint × StepOutcome}
    {outcome : StepOutcome} {address : Address} (hfree : .outbox ∉ c.held)
    (hr : c.station.endpoint? id = some r)
    (hyields : (finishStep id address (.write f next)).Yields w.Answers c outcome c') :
    ∃ accepted after, w.Shows after ∧ (w.willing = true → accepted = true) ∧
      outcome = (next accepted after).2 ∧
      Advances id (next accepted after).1 (if accepted then [f] else []) c.station.budget c c' := by
  obtain ⟨accepted, c₁, hs, h₁⟩ := yields_bind.mp hyields
  obtain ⟨hwilling, rfl⟩ := calm_send hfree hs
  obtain ⟨after, c₂, hnow, h₂⟩ := yields_bind.mp h₁
  obtain ⟨shown, rfl⟩ := calm_now.mp hnow
  obtain ⟨_, c₃, hmodify, rfl, rfl⟩ := yields_bind.mp h₂
  obtain rfl := calm_modify.mp hmodify
  refine ⟨accepted, after, shown, hwilling, rfl, ?_⟩
  cases accepted with
  | false =>
    refine ⟨rfl, opened_of_active rfl, ⟨_, _, rfl⟩, endpoint?_put_self hr _, fun i hi =>
      ?_, (List.append_nil _).symm, fun _ => rfl⟩
    exact ⟨endpoint?_put_of_ne c.station hi _, fun e he hw => ⟨e, he, hw⟩, rfl⟩
  | true =>
    have hentered :
        ((c.note (.accepted id f)).access fun s =>
          { s with outbox := s.outbox.push address id }).opened =
        c.opened := opened_of_active rfl
    refine ⟨rfl, (opened_of_active rfl).trans hentered, ⟨_, _, rfl⟩, endpoint?_put_self hr _,
      fun i hi => ⟨endpoint?_put_of_ne c.station hi _, ?_, ?_⟩, ?_, nofun⟩
    · intro e he hw
      rcases List.mem_append.mp he with he | he
      · exact ⟨e, he, hw⟩
      · rw [List.mem_singleton.mp he] at hw
        exact absurd (Option.some.inj hw).symm hi
    · exact (framesOf_accepted c.events id f i).trans (by simp [Ne.symm hi])
    · exact (framesOf_accepted c.events id f id).trans (by simp)

theorem calm_stepEndpoint {outcome : StepOutcome} (hl : .endpoint id ∉ c.held)
    (ho : .outbox ∉ c.held) (hr : c.station.endpoint? id = some r)
    (hyields : (stepEndpoint id frame).Yields w.Answers c outcome c') :
    ∃ r' sent now, w.Steps c.station.budget frame r r' outcome sent ∧
      Advances id r' sent (r.step now frame c.station.budget).2 c c' := by
  obtain ⟨stepped, c₁, h₁, rfl, rfl⟩ := yields_bind.mp hyields
  obtain ⟨outcome, c₂, hb, rfl, rfl⟩ := (calm_withLock hl).mp h₁
  obtain ⟨clock, c₃, hnow, hb⟩ := yields_bind.mp hb
  obtain ⟨shown, rfl⟩ := calm_now.mp hnow
  obtain ⟨begun, c₄, hs, hb⟩ := yields_bind.mp hb
  obtain ⟨rfl, rfl⟩ := calm_modifyGet.mp hs
  have hr' : (c.lock (.endpoint id)).station.endpoint? id = some r := hr
  cases hm : r.step clock frame c.station.budget with
  | mk move budget =>
    have hm' : r.step clock frame (c.lock (.endpoint id)).station.budget = (move, budget) := hm
    cases move with
    | rest next result =>
      have hbegin : (c.lock (.endpoint id)).station.beginStep id frame clock =
          (some (r.address, .rest next result), (c.station.setBudget budget).modifyEndpoint
            id fun _ => next) := by
        rw [beginStep, hr']
        simp only [hm']
        rfl
      rw [hbegin, access_congr (fun s => (s.setBudget budget).modifyEndpoint id fun _ => next)
        (by rw [hbegin]; rfl)] at hb
      obtain ⟨rfl, rfl⟩ := hb
      refine ⟨next, [], clock,
        ⟨clock, clock, true, shown, shown, fun _ => rfl, by rw [hm]; rfl, by rw [hm]; rfl⟩, ?_⟩
      rw [hm]
      refine .under ?_
      have hr'' : (c.station.setBudget budget).endpoint? id = some r := hr
      refine ⟨rfl, opened_of_active rfl, ⟨_, _, rfl⟩, endpoint?_put_self hr'' next, fun i hi =>
        ?_, (List.append_nil _).symm, fun _ => rfl⟩
      exact ⟨endpoint?_put_of_ne (c.station.setBudget budget) hi next, fun e he hw =>
        ⟨e, he, hw⟩, rfl⟩
    | write f next =>
      have hbegin : (c.lock (.endpoint id)).station.beginStep id frame clock =
          (some (r.address, .write f next),
          c.station.setBudget budget) := by
        rw [beginStep, hr']
        simp only [hm']
        rfl
      rw [hbegin, access_congr (·.setBudget budget) (by rw [hbegin]; rfl)] at hb
      obtain ⟨accepted, after, hafter, hwilling, rfl, hadvances⟩ := calm_finishStep
        (c := (c.lock (.endpoint id)).access (·.setBudget budget))
        (fun hmem => ho ((List.mem_cons.mp hmem).resolve_left (by simp))) hr hb
      refine ⟨_, _, clock,
        ⟨clock, after, accepted, shown, hafter, hwilling, by rw [hm]; rfl, by rw [hm]⟩, ?_⟩
      rw [hm]
      refine .under ?_
      refine ⟨hadvances.held, hadvances.opened.trans (opened_of_active rfl),
        hadvances.station, hadvances.endpoint, fun i hi => ?_, hadvances.frames, hadvances.outbox⟩
      obtain ⟨he, hn, hf⟩ := hadvances.spares i hi
      exact ⟨he, hn, hf⟩

theorem calm_passOn {outcome : StepOutcome} {a : Unit} (hfree : .conversations ∉ c.held)
    (hyields : (passOn h outcome).Yields w.Answers c a c') :
    w.Heeds outcome (c.passed h outcome) c' := by
  cases outcome with
  | inProgress => exact hyields.2
  | firstFrame length => exact calm_notify.mp hyields
  | finished result =>
    obtain ⟨_, c₁, h₁, -, rfl⟩ := yields_bind.mp hyields
    obtain ⟨_, c₂, h₂, -, rfl⟩ := (calm_withLock hfree).mp h₁
    rw [calm_modify.mp h₂]
    exact unlock_access_lock c _ _

theorem calm_inspect {view : Endpoint → Bool} {a : Bool} (hl : .endpoint id ∉ c.held)
    (hr : c.station.endpoint? id = some r) (hyields : (inspect id view).Yields w.Answers c a c') :
    a = view r ∧ c' = c := by
  obtain ⟨seen, c₁, h₁, rfl, rfl⟩ := yields_bind.mp hyields
  obtain ⟨rfl, rfl⟩ := calm_look hl h₁
  exact ⟨by simp [Except.toOption, hr], rfl⟩

theorem calm_stepAndPassOn {a : Unit} (hl : .endpoint h.id ∉ c.held) (ho : .outbox ∉ c.held)
    (hc : .conversations ∉ c.held) (hr : c.station.endpoint? h.id = some r)
    (hyields : (stepEndpoint h.id frame >>= fun outcome => passOn h outcome).Yields w.Answers c a
      c') :
    ∃ r' outcome sent now c₁, w.Steps c.station.budget frame r r' outcome sent ∧
      Advances h.id r' sent (r.step now frame c.station.budget).2 c c₁ ∧
      w.Heeds outcome (c₁.passed h outcome) c' := by
  obtain ⟨outcome, c₁, h₁, h₂⟩ := yields_bind.mp hyields
  obtain ⟨r', sent, now, hsteps, hadvances⟩ := calm_stepEndpoint hl ho hr h₁
  exact ⟨r', outcome, sent, now, c₁, hsteps, hadvances, calm_passOn (hadvances.held ▸ hc) h₂⟩

end Station

namespace Calm
open Scene

variable {w : Calm} {frame left : Option Frame} {h : Handle} {handles : List Handle}
  {r : Endpoint} {c c₁ c' : Scene}

structure Free (handles : List Handle) (c : Scene) : Prop where
  endpoint : ∀ h ∈ handles, .endpoint h.id ∉ c.held
  outbox : .outbox ∉ c.held
  conversations : .conversations ∉ c.held

/-- The turns of running conversations, one after the other; `left` is what nobody has claimed. -/
structure Attends (w : Calm) (frame : Option Frame) (handles : List Handle) (c : Scene)
    (left : Option Frame) (c' : Scene) : Prop where
  held : c'.held = c.held
  station : ∃ endpoints outbox finished, c'.station = { c.station with endpoints, outbox, finished }
  spares : ∀ id, (∀ h ∈ handles, h.id ≠ id) → Spares id c c'
  listed : ∀ h ∈ c.station.finished, h ∈ c'.station.finished
  finished : ∀ h ∈ c'.station.finished, h ∈ c.station.finished ∨ h ∈ handles
  turn : ∀ h ∈ handles, ∀ r, c.station.endpoint? h.id = some r → ∃ offered r' outcome sent rest,
    (offered = frame ∨ offered = none) ∧ w.Turns offered h r r' outcome sent rest ∧
      c'.station.endpoint? h.id = some r' ∧
      framesOf h.id c'.events = framesOf h.id c.events ++ sent ∧
      ∀ result, outcome = .finished result → h ∈ c'.station.finished
  remains : left = frame ∨ left = none
  unclaimed : (∀ f, frame = some f → ∀ h ∈ handles, ∀ r, c.station.endpoint? h.id = some r →
    h.accepts f.id = true → r.isAwaiting = false) → left = frame

section Frame
variable (hd : w.Attends frame handles c left c')
include hd

theorem Attends.settings : c'.station.settings = c.station.settings := by
  obtain ⟨_, _, _, hs⟩ := hd.station
  rw [hs]

theorem Attends.budget : c'.station.budget = c.station.budget := by
  obtain ⟨_, _, _, hs⟩ := hd.station
  rw [hs]

theorem Attends.fresh : c'.station.fresh = c.station.fresh := by
  obtain ⟨_, _, _, hs⟩ := hd.station
  rw [hs]

theorem Attends.active : c'.station.active = c.station.active := by
  obtain ⟨_, _, _, hs⟩ := hd.station
  rw [hs]

end Frame

theorem Attends.single {r' : Endpoint} {outcome : StepOutcome} {sent : List Frame} {budget : Budget}
    (hr : c.station.endpoint? h.id = some r) (hturns : w.Turns frame h r r' outcome sent left)
    (hbudget : budget = c.station.budget) (hadvances : Advances h.id r' sent budget c c₁) :
    w.Attends frame [h] c left (c₁.passed h outcome) := by
  obtain ⟨endpoints, outbox, hs⟩ := hadvances.station
  have hspared := passed_spares c₁ h outcome h.id
  refine ⟨(passed_held c₁ h outcome).trans hadvances.held, ?_, fun id hid =>
    ?_, ?_, ?_, ?_, ?_, fun hu => ?_⟩
  · rw [passed_station, hs, hbudget]
    exact ⟨_, _, _, rfl⟩
  · exact (hadvances.spares id (Ne.symm (hid h List.mem_cons_self))).trans
      (passed_spares c₁ h outcome id)
  · intro g hg
    rw [passed_station, hs]
    exact List.mem_append_left _ hg
  · intro g hg
    rw [passed_station, hs] at hg
    refine (List.mem_append.mp hg).imp_right fun hg => ?_
    cases outcome with
    | finished result => exact hg
    | inProgress | firstFrame => cases hg
  · intro g hg r₀ hr₀
    obtain rfl := List.mem_singleton.mp hg
    obtain rfl := Option.some.inj (hr.symm.trans hr₀)
    refine ⟨frame, r', outcome, sent, left, .inl rfl, hturns,
      hspared.endpoint.trans hadvances.endpoint, hspared.frames.trans hadvances.frames, ?_⟩
    rintro result rfl
    exact List.mem_append_right _ List.mem_cons_self
  · cases hturns with
    | claim => exact .inr rfl
    | step | pause => exact .inl rfl
  · cases hturns with
    | claim hf haccepts hawaits =>
      exact absurd hawaits (by simp [hu _ hf h List.mem_cons_self r hr haccepts])
    | step | pause => rfl

theorem Attends.cons {rest : Option Frame} (h₁ : w.Attends frame [h] c rest c₁)
    (h₂ : w.Attends rest handles c₁ left c') (hne : ∀ g ∈ handles, g.id ≠ h.id) :
    w.Attends frame (h :: handles) c left c' := by
  have hsame : ∀ g ∈ handles, Spares g.id c c₁ := fun g hg =>
    h₁.spares g.id fun x hx => List.mem_singleton.mp hx ▸ (hne g hg).symm
  have hafter : Spares h.id c₁ c' := h₂.spares h.id hne
  refine ⟨h₂.held.trans h₁.held, ?_, fun id hid => ?_, fun g hg => h₂.listed g (h₁.listed g hg),
    ?_, ?_, ?_, fun hu => ?_⟩
  · obtain ⟨endpoints, outbox, finished, hs⟩ := h₁.station
    obtain ⟨endpoints', outbox', finished', hs'⟩ := h₂.station
    exact ⟨endpoints', outbox', finished', by rw [hs', hs]⟩
  · exact (h₁.spares id fun x hx => List.mem_singleton.mp hx ▸ hid h List.mem_cons_self).trans
      (h₂.spares id fun x hx => hid x (List.mem_cons_of_mem _ hx))
  · intro g hg
    rcases h₂.finished g hg with hg | hg
    · exact (h₁.finished g hg).imp_right fun hg =>
        List.mem_cons.mpr (.inl (List.mem_singleton.mp hg))
    · exact .inr (List.mem_cons_of_mem _ hg)
  · intro g hg r hr
    rcases List.mem_cons.mp hg with rfl | hg
    · obtain ⟨offered, r', outcome, sent, left', ho, ht, hr', hf, hl⟩ :=
        h₁.turn g List.mem_cons_self r hr
      exact ⟨offered, r', outcome, sent, left', ho, ht, hafter.endpoint.trans hr',
        hafter.frames.trans hf, fun result he => h₂.listed g (hl result he)⟩
    · obtain ⟨offered, r', outcome, sent, left', ho, ht, hr', hf, hl⟩ :=
        h₂.turn g hg r ((hsame g hg).endpoint.trans hr)
      refine ⟨offered, r', outcome, sent, left', ?_, ht, hr', (hsame g hg).frames ▸ hf, hl⟩
      rcases ho with rfl | rfl
      · exact h₁.remains
      · exact .inr rfl
  · rcases h₂.remains with rfl | rfl
    · exact h₁.remains
    · exact .inr rfl
  · have hrest : rest = frame := h₁.unclaimed fun f hf g hg r hr =>
      hu f hf g (List.mem_singleton.mp hg ▸ List.mem_cons_self) r hr
    refine (h₂.unclaimed fun f hf g hg r hr => ?_).trans hrest
    exact hu f (hrest ▸ hf) g (List.mem_cons_of_mem _ hg) r ((hsame g hg).endpoint ▸ hr)

theorem attends_one {tickAt : Micros} (shown : w.Shows tickAt) (hfree : Free [h] c)
    (hr : c.station.endpoint? h.id = some r)
    (hyields : (Station.dispatchOne tickAt frame h).Yields w.Answers c left c') :
    w.Attends frame [h] c left c' := by
  have hl := hfree.endpoint h List.mem_cons_self
  rw [Station.dispatchOne_eq] at hyields
  obtain ⟨claims, c₁, h₁, h₂⟩ := yields_bind.mp hyields
  have hclaims : c₁ = c ∧
      (claims = true → ∃ f, frame = some f ∧ h.accepts f.id = true ∧ r.isAwaiting = true) := by
    split at h₁
    · next f =>
      split at h₁
      · next haccepts =>
        obtain ⟨hclaims, rfl⟩ := Station.calm_inspect hl hr h₁
        exact ⟨rfl, fun hc => ⟨f, rfl, haccepts, hclaims ▸ hc⟩⟩
      · obtain ⟨rfl, rfl⟩ := h₁
        exact ⟨rfl, nofun⟩
    · obtain ⟨rfl, rfl⟩ := h₁
      exact ⟨rfl, nofun⟩
  obtain ⟨rfl, hclaims⟩ := hclaims
  cases claims with
  | true =>
    obtain ⟨f, rfl, haccepts, hawaits⟩ := hclaims rfl
    obtain ⟨_, c₂, h₃, rfl, rfl⟩ := yields_bind.mp h₂
    obtain ⟨r', outcome, sent, now, c₃, hsteps, hadvances, hheeds⟩ :=
      Station.calm_stepAndPassOn hl hfree.outbox hfree.conversations hr h₃
    rw [hheeds.eq (steps_silent hsteps (.inr hawaits))]
    exact .single hr (.claim rfl haccepts hawaits hsteps)
      (Endpoint.step_onward (.inr hawaits)).1 hadvances
  | false =>
    obtain ⟨due, c₂, h₃, h₄⟩ := yields_bind.mp h₂
    obtain ⟨rfl, rfl⟩ := Station.calm_inspect hl hr h₃
    split at h₄
    · next hdue =>
      obtain ⟨_, c₄, h₅, rfl, rfl⟩ := yields_bind.mp h₄
      obtain ⟨r', outcome, sent, now, c₃, hsteps, hadvances, hheeds⟩ :=
        Station.calm_stepAndPassOn hl hfree.outbox hfree.conversations hr h₅
      rw [hheeds.eq (steps_silent hsteps (.inl rfl))]
      exact .single hr (.step shown hdue hsteps) (Endpoint.step_onward (.inl rfl)).1 hadvances
    · next hdue =>
      obtain ⟨rfl, rfl⟩ := h₄
      have hrests : Advances h.id r [] c'.station.budget c' c' :=
        ⟨rfl, rfl, ⟨_, _, rfl⟩, hr, fun i _ => .refl i c', (List.append_nil _).symm, fun _ => rfl⟩
      exact .single hr (.pause shown (by simpa using hdue)) rfl hrests

theorem attends_dispatch {tickAt : Micros} (shown : w.Shows tickAt) (hfree : Free handles c)
    (hd : (handles.map (·.id)).Nodup)
    (hlive : ∀ h ∈ handles, ∃ r, c.station.endpoint? h.id = some r)
    (hyields : (Station.dispatch tickAt frame handles).Yields w.Answers c left c') :
    w.Attends frame handles c left c' := by
  induction handles generalizing c frame with
  | nil =>
    obtain ⟨rfl, rfl⟩ := hyields
    exact ⟨rfl, ⟨_, _, _, rfl⟩, fun id _ => .refl id c', fun g hg => hg, fun g hg => .inl hg, nofun,
      .inl rfl, fun _ => rfl⟩
  | cons h rest ih =>
    obtain ⟨hne, hd⟩ := List.nodup_cons.mp hd
    have hne : ∀ g ∈ rest, g.id ≠ h.id := fun g hg he => hne (List.mem_map.mpr ⟨g, hg, he⟩)
    obtain ⟨rest', c₁, h₁, h₂⟩ := yields_bind.mp hyields
    obtain ⟨r, hr⟩ := hlive h List.mem_cons_self
    have hone := attends_one shown
        ⟨fun g hg => hfree.endpoint g (List.mem_singleton.mp hg ▸ List.mem_cons_self), hfree.outbox,
      hfree.conversations⟩ hr h₁
    refine hone.cons (ih ⟨fun g hg => ?_, ?_, ?_⟩ hd (fun g hg => ?_) h₂) hne
    · exact hone.held ▸ hfree.endpoint g (List.mem_cons_of_mem _ hg)
    · exact hone.held ▸ hfree.outbox
    · exact hone.held ▸ hfree.conversations
    · obtain ⟨r, hr⟩ := hlive g (List.mem_cons_of_mem _ hg)
      exact ⟨r, (hone.spares g.id fun x hx =>
        List.mem_singleton.mp hx ▸ (hne g hg).symm).endpoint.trans hr⟩

end Calm
end CanTransport
