import CanTransport.Proofs.Proceeding
import CanTransport.Proofs.Waiting

/-! # Steps and outcomes proceed by transitions

A step writes at most one frame, and calls may be made from within while it does. Outcomes are taken
out of the outbox one by one and handed to the endpoints that wrote the frames.
-/
namespace CanTransport.Station
open CanTransport.Action

variable {inner : Scene → Scene → Prop} {g : Hand} {c c' c₁ c₂ : Scene}

theorem send_path {b : Begun} {address : Address} {accepted : Bool}
    {tasks : List Task} (hi : Sound inner) (hb : b.accepted = false)
    (hown : address = b.origin.address) (hg : Fits { g with tasks := .step b :: tasks } c)
    (h : (send b.id address b.frame).Ends inner c accepted c') :
    Path ⟨c, { g with tasks := .step b :: tasks }⟩
      ⟨c', { g with tasks := .step { b with accepted } :: tasks }⟩ ∧ c'.held = c.held := by
  have offered : ({ b with accepted := false } : Begun) = b := by rw [← hb]
  obtain ⟨sent, c₁, h₁, rfl, rfl⟩ := ends_bind.mp h
  rcases ends_withLock.mp h₁ with ⟨rfl, rfl⟩ | ⟨-, accepted, c₂, hbody, rfl, rfl⟩
  · refine ⟨?_, rfl⟩
    change Path _ ⟨c', { g with tasks := .step { b with accepted := false } :: tasks }⟩
    rw [offered]
    exact .refl _
  · obtain ⟨accepted', c₃, hw, h⟩ := ends_bind.mp hbody
    obtain ⟨_, rfl, c₄, hin, rfl⟩ := ends_ask.mp hw
    have p := hi _ _ _ (hg.lock .outbox) hin
    cases accepted' with
    | false =>
      obtain ⟨rfl, rfl⟩ := h
      have q := p.under
      refine ⟨?_, q.held⟩
      change Path _ ⟨_, { g with tasks := .step { b with accepted := false } :: tasks }⟩
      rw [offered]
      exact q.path
    | true =>
      obtain ⟨_, c₅, h₂, rfl, rfl⟩ := ends_bind.mp h
      rw [ends_modify.mp h₂]
      have path := ((Path.single (.locks _)).trans p.path).tail (.accept address rfl hb hown)
      refine ⟨path.tail (.locks _), ?_⟩
      change c₄.held.erase .outbox = c.held
      rw [p.held]
      exact List.erase_cons_head _ _

/-- A step that offers a frame is begun, offers it and comes to its end. -/
theorem finishStep_proceeds {id : EndpointId} {r : Endpoint} {frame : Option Frame}
    {clock : Micros} {f : Frame} {next : Bool → Micros → Endpoint × StepOutcome} {budget : Budget}
    {outcome : StepOutcome} (hi : Sound inner) (hg : Fits g c) (hidle : id ∉ g.busy)
    (hlock : .endpoint id ∈ c.held) (hr : c.station.endpoint? id = some r)
    (hm : r.step clock frame c.station.budget = (.write f next, budget))
    (h : (finishStep id r.address (.write f next)).Ends inner (c.access (·.setBudget budget))
      outcome c') :
    Proceeds g c c' ∧ ∀ length, outcome ≠ .firstFrame length := by
  let b : Begun :=
    { id, origin := r, clock, input := frame, budget := c.station.budget, frame := f, next, writes := by rw [hm] }
  have hbegin : Path ⟨c, g⟩
      ⟨c.access (·.setBudget budget), { g with tasks := .step b :: g.tasks }⟩ := by
    have t := Transition.begin (c := c) (g := g) b hidle hr rfl rfl
    have hbudget : (b.origin.step b.clock b.input b.budget).2 = budget := congrArg Prod.snd hm
    rw [hbudget] at t
    exact .single t
  obtain ⟨accepted, c₁, hs, h⟩ := ends_bind.mp h
  obtain ⟨hpath, hheld⟩ := send_path hi rfl rfl (hg.take (t := .step b) hlock hbegin rfl) hs
  have hpath := hbegin.trans hpath
  obtain ⟨after, c₂, hnow, h⟩ := ends_bind.mp h
  have p := hi.now (hg.take (t := .step { b with accepted }) hlock hpath hheld) hnow
  obtain ⟨_, c₃, hmodify, rfl, rfl⟩ := ends_bind.mp h
  rw [ends_modify.mp hmodify]
  exact ⟨⟨(hpath.trans p.path).tail (.finish (b := { b with accepted }) after rfl),
    p.held.trans hheld⟩, Endpoint.write_silent (by rw [hm]) accepted after⟩

/-- A message is announced at the end of a step that writes nothing, while the lock of the endpoint
is still held. -/
structure Announces (g : Hand) (id : EndpointId) (length : Nat) (c c' : Scene) : Prop where
  idle : id ∉ g.busy
  step : ∃ c₁ r next frame now budget, Proceeds g (c.lock (.endpoint id)) c₁ ∧
    c₁.station.endpoint? id = some r ∧ r.step now frame c₁.station.budget =
    (.rest next (.firstFrame length), budget) ∧
      c' = (c₁.access fun s => (s.setBudget budget).modifyEndpoint id fun _ => next).unlock
      (.endpoint id)

theorem stepEndpoint_proceeds {id : EndpointId} {frame : Option Frame} {outcome : StepOutcome}
    (hi : Sound inner) (hg : Fits g c) (h : (stepEndpoint id frame).Ends inner c outcome c') :
    (Proceeds g c c' ∧ ∀ length, outcome ≠ .firstFrame length) ∨
      ∃ length, outcome = .firstFrame length ∧ Announces g id length c c' := by
  obtain ⟨stepped, c₁, h₁, rfl, rfl⟩ := ends_bind.mp h
  rcases ends_withLock.mp h₁ with ⟨rfl, rfl⟩ | ⟨hfree, outcome, c₂, hb, rfl, rfl⟩
  · exact .inl ⟨.refl g c', nofun⟩
  obtain ⟨clock, c₃, hnow, hb⟩ := ends_bind.mp hb
  have hl := hg.lock (.endpoint id)
  have p := hi.now hl hnow
  have hidle : id ∉ g.busy := hg.idle hfree
  have hg₃ := hl.proceed p
  obtain ⟨begun, c₄, hs, hb⟩ := ends_bind.mp hb
  obtain ⟨rfl, rfl⟩ := ends_modifyGet.mp hs
  cases hr : c₃.station.endpoint? id with
  | none =>
    have hbegin : c₃.station.beginStep id frame clock = (none, c₃.station) := by rw [beginStep, hr]
    rw [hbegin, access_eq_self (by rw [hbegin])] at hb
    obtain ⟨rfl, rfl⟩ := hb
    exact .inl ⟨p.under, nofun⟩
  | some r =>
    cases hm : r.step clock frame c₃.station.budget with
    | mk move budget =>
      cases move with
      | rest next result =>
        have hbegin : c₃.station.beginStep id frame clock = (some (r.address, .rest next result),
            (c₃.station.setBudget budget).modifyEndpoint id fun _ => next) := by
          rw [beginStep, hr]
          simp only [hm]
          rfl
        rw [hbegin, access_congr (fun s => (s.setBudget budget).modifyEndpoint id fun _ => next)
          (by rw [hbegin])] at hb
        obtain ⟨rfl, rfl⟩ := hb
        -- a step that announces a message becomes a transition only together with its notice
        by_cases hannounce : ∃ length, outcome = .firstFrame length
        · obtain ⟨length, rfl⟩ := hannounce
          exact .inr ⟨length, rfl, hidle, c₃, r, next, frame, clock, budget, p, hr, hm, rfl⟩
        · have hsilent := not_exists.mp hannounce
          exact .inl ⟨(p.trans (.single (.rest hidle hr hm hsilent) rfl)).under, hsilent⟩
      | write f next =>
        have hbegin : c₃.station.beginStep id frame clock = (some (r.address, .write f next),
            c₃.station.setBudget budget) := by
          rw [beginStep, hr]
          simp only [hm]
          rfl
        rw [hbegin, access_congr (·.setBudget budget) (by rw [hbegin])] at hb
        obtain ⟨q, hsilent⟩ :=
          finishStep_proceeds hi hg₃ hidle (p.held ▸ List.mem_cons_self) hr hm hb
        exact .inl ⟨(p.trans q).under, hsilent⟩

theorem inspect_eq {id : EndpointId} {view : Endpoint → Bool} {a : Bool}
    (h : (inspect id view).Ends inner c a c') : c' = c := by
  obtain ⟨seen, c₁, h₁, rfl, rfl⟩ := ends_bind.mp h
  exact (ends_look h₁).1

theorem pollOutcome_proceeds {a : Bool} (hi : Sound inner) (hg : Fits g c)
    (h : pollOutcome.Ends inner c a c') : Proceeds g c c' := by
  obtain ⟨taken, c₁, h₁, rfl, rfl⟩ := ends_bind.mp h
  apply proceeds_withLock hg h₁
  intro b c₂ _ hg hb
  obtain ⟨ack, c₃, ha, hb⟩ := ends_bind.mp hb
  obtain ⟨_, rfl, c₄, hin, rfl⟩ := ends_ask.mp ha
  have p := hi g _ _ hg hin
  cases ack with
  | none =>
    obtain ⟨-, rfl⟩ := hb
    exact p
  | some ack =>
    obtain ⟨-, rfl⟩ := ends_modifyGet.mp hb
    exact p.trans (.single (.poll ack) rfl)

theorem drainUpTo_proceeds {fuel : Nat} {a : Unit} (hi : Sound inner) (hg : Fits g c)
    (h : (drainUpTo fuel).Ends inner c a c') : Proceeds g c c' := by
  induction fuel generalizing c with
  | zero =>
    obtain ⟨-, rfl⟩ := h
    exact .refl g c'
  | succ fuel ih =>
    obtain ⟨taken, c₁, h₁, h⟩ := ends_bind.mp h
    have p := pollOutcome_proceeds hi hg h₁
    cases taken with
    | false =>
      obtain ⟨-, rfl⟩ := h
      exact p
    | true => exact p.trans (ih (hg.proceed p) h)

theorem ackEndpoint_proceeds {id : EndpointId} {ack : Ack} {a : Unit}
    (h : (ackEndpoint id ack).Ends inner c a c') :
    c' = c ∨ .endpoint id ∉ c.held ∧ ∃ clock c₁, now.Ends inner (c.lock (.endpoint id)) clock c₁ ∧
      c' = (c₁.access (·.modifyEndpoint id (·.onAck clock ack))).unlock (.endpoint id) := by
  obtain ⟨b, c₁, h₁, -, rfl⟩ := ends_bind.mp h
  rcases ends_withLock.mp h₁ with ⟨-, rfl⟩ | ⟨hfree, b, c₂, hb, -, rfl⟩
  · exact .inl rfl
  · obtain ⟨clock, c₃, hnow, hb⟩ := ends_bind.mp hb
    rw [ends_modify.mp hb]
    exact .inr ⟨hfree, clock, c₃, hnow, rfl⟩

/-- An entry taken out is handed to its writer or to nobody. -/
theorem deliverEntry_proceeds {e : OutboxEntry} {a : Bool}
    (h : (deliverEntry e).Ends inner c a c') :
    c' = c ∨ ∃ id ack, e.writer = some id ∧ e.outcome = some ack ∧ .endpoint id ∉ c.held ∧
      ∃ clock c₁, now.Ends inner (c.lock (.endpoint id)) clock c₁ ∧
        c' = (c₁.access (·.modifyEndpoint id (·.onAck clock ack))).unlock (.endpoint id) := by
  obtain ⟨s, c₁, h₁, h⟩ := ends_bind.mp h
  obtain ⟨rfl, rfl⟩ := ends_get.mp h₁
  split at h
  · next id ack hw ho =>
    obtain ⟨_, c₂, h₂, -, rfl⟩ := ends_bind.mp h
    rcases ackEndpoint_proceeds h₂ with rfl | ⟨hfree, hnow⟩
    · exact .inl rfl
    · exact .inr ⟨id, ack, (Option.filter_eq_some_iff.mp hw).1, ho, hfree, hnow⟩
  · exact .inl h.2

theorem acknowledge_proceeds {id : EndpointId} {ack : Ack} {clock : Micros}
    (hi : Sound inner) (hg : Fits g c)
    (path : Path ⟨c, g⟩ ⟨c₁, { g with tasks := .ack id ack :: g.tasks }⟩) (hh : c₁.held = c.held)
    (hnow : now.Ends inner (c₁.lock (.endpoint id)) clock c₂) :
    Proceeds g c ((c₂.access (·.modifyEndpoint id (·.onAck clock ack))).unlock (.endpoint id)) := by
  have locked : Path ⟨c.lock (.endpoint id), g⟩
      ⟨c₁.lock (.endpoint id), { g with tasks := .ack id ack :: g.tasks }⟩ :=
    ((Path.single (.locks (c := c.lock (.endpoint id)) c.held)).trans path).tail (.locks _)
  have hheld : (c₁.lock (.endpoint id)).held = (c.lock (.endpoint id)).held :=
    congrArg (Lock.endpoint id :: ·) hh
  have hl := (hg.lock (.endpoint id)).take (t := .ack id ack) List.mem_cons_self locked hheld
  have p := hi.now hl hnow
  exact Proceeds.under ⟨(locked.trans p.path).tail (.acknowledge clock rfl), p.held.trans hheld⟩

/-- An entry is taken out, and its outcome handed to its writer or to nobody. -/
theorem handOver_proceeds {e : OutboxEntry} {clock : Micros} {delivered : Bool}
    (hi : Sound inner) (hg : Fits g c) (hnow : now.Ends inner (c.lock .outbox) clock c₁)
    (he : (c₁.station.nextDelivery clock).1 = some e)
    (hd : (deliverEntry e).Ends inner ((c₁.access fun s => (s.nextDelivery clock).2).unlock .outbox)
      delivered c') :
    Proceeds g c c' := by
  have p := hi.now (hg.lock .outbox) hnow
  have q : Proceeds g c ((c₁.access fun s => (s.nextDelivery clock).2).unlock .outbox) :=
    (p.trans (.single (.discard clock) rfl)).under
  rcases deliverEntry_proceeds hd with rfl | ⟨id, ack, hw, ho, hfree, clock', c₂, hnow', rfl⟩
  · exact q
  · have t := Transition.collect (g := g) he hw ho (hg.idle (q.held ▸ hfree))
    have path := ((Path.single (.locks (.outbox :: c.held))).trans p.path).tail t
    have path := path.tail (.locks (c₁.held.erase .outbox))
    exact acknowledge_proceeds hi hg path q.held hnow'

theorem deliverNext_proceeds {a : Option Bool} (hi : Sound inner) (hg : Fits g c)
    (h : deliverNext.Ends inner c a c') : Proceeds g c c' := by
  obtain ⟨entry, c₁, h₁, h₂⟩ := ends_bind.mp h
  rcases ends_withLock.mp h₁ with ⟨rfl, rfl⟩ | ⟨-, entry, c₂, hb, rfl, rfl⟩
  · obtain ⟨-, rfl⟩ := h₂
    exact .refl g c'
  obtain ⟨clock, c₃, hnow, hb⟩ := ends_bind.mp hb
  obtain ⟨rfl, rfl⟩ := ends_modifyGet.mp hb
  cases he : (c₃.station.nextDelivery clock).1 with
  | none =>
    rw [he] at h₂
    obtain ⟨-, rfl⟩ := h₂
    exact ((hi.now (hg.lock .outbox) hnow).trans (.single (.discard clock) rfl)).under
  | some e =>
    rw [he] at h₂
    obtain ⟨delivered, c₄, hd, -, rfl⟩ := ends_bind.mp h₂
    exact handOver_proceeds hi hg hnow he hd

theorem deliverUpTo_proceeds {fuel : Nat} {a : Nat} (hi : Sound inner) (hg : Fits g c)
    (h : (deliverUpTo fuel).Ends inner c a c') : Proceeds g c c' := by
  induction fuel generalizing c a with
  | zero =>
    obtain ⟨-, rfl⟩ := h
    exact .refl g c'
  | succ fuel ih =>
    obtain ⟨delivered, c₁, h₁, h₂⟩ := ends_bind.mp h
    have p := deliverNext_proceeds hi hg h₁
    cases delivered with
    | none =>
      obtain ⟨-, rfl⟩ := h₂
      exact p
    | some delivered =>
      obtain ⟨rest, c₂, hr, -, rfl⟩ := ends_bind.mp h₂
      exact p.trans (ih (hg.proceed p) hr)

theorem settle_proceeds {a : Nat} (hi : Sound inner) (hg : Fits g c)
    (h : settle.Ends inner c a c') :
    Proceeds g c c' := by
  obtain ⟨_, c₁, hd, hr⟩ := ends_bind.mp h
  obtain ⟨s, c₂, hs, hdrain⟩ := ends_bind.mp hd
  obtain ⟨rfl, rfl⟩ := ends_get.mp hs
  have p := drainUpTo_proceeds hi hg hdrain
  obtain ⟨s, c₃, hs, hdeliver⟩ := ends_bind.mp hr
  obtain ⟨rfl, rfl⟩ := ends_get.mp hs
  exact p.trans (deliverUpTo_proceeds hi (hg.proceed p) hdeliver)

theorem forget_proceeds {address : Address} {a : Except LockTimeout Nat}
    (hi : Sound inner) (hg : Fits g c) (h : (forget address).Ends inner c a c') :
    Proceeds g c c' := by
  apply proceeds_withLock hg h
  intro b c₁ _ hl hb
  obtain ⟨clock, c₂, hnow, hb⟩ := ends_bind.mp hb
  have p := hi.now hl hnow
  rw [(ends_modifyGet.mp hb).2]
  exact p.trans (.single (.forget address clock) rfl)

end CanTransport.Station
