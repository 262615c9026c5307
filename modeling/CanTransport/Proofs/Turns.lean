import CanTransport.Proofs.Ticking

/-! # A station's turn

Where a station with one conversation stands between two ticks, and what one more tick makes of it.
-/
namespace CanTransport.Bench
open Station

/-- A station as it was made, but for the time of its last tick and the numbers it has given away.
-/
structure Stands (home : Station) (clock : Micros) (base : Station) : Prop where
  settings : base.settings = home.settings
  budget : base.budget = home.budget
  runPeriod : base.runPeriod = home.runPeriod
  rested : base.Rested clock

namespace Stands
variable {home base : Station} {clock span : Micros}

theorem ticked (h : Stands home clock base) (hp : home.runPeriod ≤ span) :
    Stands home (clock + span) (base.ticked clock) where
  settings := h.settings
  budget := h.budget
  runPeriod := h.runPeriod
  rested := by
    intro last hl
    obtain rfl : clock = last := Option.some.inj hl
    change base.runPeriod ≤ clock + span - clock
    rw [h.runPeriod, Nat.add_sub_cancel_left]
    exact hp

theorem adopted (h : Stands home clock base) : Stands home clock base.adopted :=
  ⟨h.settings, h.budget, h.runPeriod, h.rested⟩

end Stands

/-- A station with one conversation at most, whose endpoint will have heard what there is to hear by
`clock`. -/
def NodeView.Hosts (home : Station) (clock : Micros) (current : Option (EndpointId × Endpoint))
    (queue : List (EndpointId × Endpoint)) (inbox : List Frame) (notices : List Notice)
    (x : NodeView) : Prop :=
  ∃ base, Stands home clock base ∧
    match current with
    | none => x = .hosting base none false queue inbox notices
    | some (id, r) => ∃ unheard e, x = .hosting base (some (id, e)) unheard queue inbox notices ∧
        NodeView.heard unheard clock e = r

/-- The next tick sends `forth`; how the station stands afterwards, with what comes `back`. -/
def NodeView.Turns (home : Station) (clock span : Micros) (current : Option (EndpointId × Endpoint))
    (queue : List (EndpointId × Endpoint)) (notices : List Notice) (forth : List Frame)
    (x : NodeView) : Prop :=
  ∃ x', x.run tickIfDue clock = (x', forth) ∧
    ∀ back, NodeView.Hosts home (clock + span) current queue back notices
      { x' with inbox := x'.inbox ++ back }

/-- Requests that wait behind a conversation on their identifier, with memory for all of them. -/
structure Behind (home : Station) (address : Address) (id : EndpointId)
    (queue : List (EndpointId × Endpoint)) : Prop where
  fresh : id ∉ queue.map (·.1)
  same : ∀ p ∈ queue, p.2.address = address
  room : footprints queue ≤ home.budget.remaining
  capped : home.budget.remaining ≤ Budget.top

namespace NodeView
variable {home : Station} {clock span : Micros} {id : EndpointId} {r r' : Endpoint}
  {current : Option (EndpointId × Endpoint)} {queue : List (EndpointId × Endpoint)}
  {inbox forth : List Frame} {notices : List Notice} {x y : NodeView} {frame : Option Frame}

theorem Hosts.deliver (h : Hosts home clock current queue inbox notices x) (frames : List Frame) :
    Hosts home clock current queue (inbox ++ frames) notices
      { x with inbox := x.inbox ++ frames } := by
  obtain ⟨base, hb, h⟩ := h
  refine ⟨base, hb, ?_⟩
  cases current with
  | none =>
    obtain rfl := h
    rfl
  | some p =>
    obtain ⟨unheard, e, rfl, he⟩ := h
    exact ⟨unheard, e, rfl, he⟩

theorem turns_hosting {base : Station} {unheard : Bool} (hb : Stands home clock base)
    (hp : home.runPeriod ≤ span)
    (hx : x.run tickIfDue clock =
      (.hosting (base.ticked clock) (some (id, r)) unheard queue [] notices, forth)) :
    Turns home clock span (some (id, heard unheard (clock + span) r)) queue notices forth x :=
  ⟨_, hx, fun _ => ⟨base.ticked clock, hb.ticked hp, unheard, r, rfl, rfl⟩⟩

theorem turns_vacant {base : Station} (hb : Stands home (clock + span) base)
    (hx : x.run tickIfDue clock = (.hosting base none false queue [] notices, forth)) :
    Turns home clock span none queue notices forth x :=
  ⟨_, hx, fun _ => ⟨base, hb, rfl⟩⟩

theorem Hosts.attends (h : Hosts home clock (some (id, r)) queue inbox notices x)
    (hq : Behind home r.address id queue) :
    ∃ base, Stands home clock base ∧ x.run tickIfDue clock =
      (hosting (base.ticked clock) (some (id, r)) false queue inbox notices).run
      (attend home.settings) clock := by
  obtain ⟨base, hb, unheard, e, rfl, rfl⟩ := h
  have ha : (heard unheard clock e).address = e.address := by
    cases unheard with
    | false => rfl
    | true => exact congrArg Handle.address (e.handle_onAck id clock .success)
  refine ⟨base, hb, ?_⟩
  rw [← hb.settings]
  exact tick_conversation hb.rested hq.fresh fun p hp => (hq.same p hp).trans ha

theorem Hosts.rest (h : Hosts home clock (some (id, r)) queue frame.toList notices x)
    (hq : Behind home r.address id queue) (hp : home.runPeriod ≤ span)
    (ht : Takes home.settings clock id r frame) (hf : r'.footprint = r.footprint)
    (hs : ∀ budget, r.step clock frame budget = (.rest r' .inProgress, budget)) :
    Turns home clock span (some (id, r')) queue notices [] x := by
  obtain ⟨base, hb, hx⟩ := h.attends hq
  exact turns_hosting hb hp (hx.trans (attend_rest ht hq.fresh hf hs))

theorem Hosts.pause (h : Hosts home clock (some (id, r)) queue [] notices x)
    (hq : Behind home r.address id queue) (hp : home.runPeriod ≤ span)
    (hd : r.isDue clock = false) :
    Turns home clock span (some (id, r)) queue notices [] x := by
  obtain ⟨base, hb, hx⟩ := h.attends hq
  exact turns_hosting hb hp (hx.trans (attend_pause hd))

theorem Hosts.write {f : Frame} {next : Bool → Micros → Endpoint × StepOutcome}
    (h : Hosts home clock (some (id, r)) queue frame.toList notices x)
    (hq : Behind home r.address id queue) (hp : home.runPeriod ≤ span)
    (ht : Takes home.settings clock id r frame) (hf : r'.footprint = r.footprint)
    (hs : ∀ budget, r.step clock frame budget = (.write f next, budget))
    (hn : next true clock = (r', .inProgress)) :
    Turns home clock span (some (id, r'.onAck (clock + span) .success)) queue notices [f] x := by
  obtain ⟨base, hb, hx⟩ := h.attends hq
  exact turns_hosting hb hp (hx.trans (attend_write ht hq.fresh hf hs hn))

theorem Hosts.finish {result : TransferResult}
    (h : Hosts home clock (some (id, r)) queue frame.toList notices x)
    (hq : Behind home r.address id queue) (hp : home.runPeriod ≤ span)
    (ht : Takes home.settings clock id r frame) (hf : r'.footprint = r.footprint)
    (hs : ∀ budget, r.step clock frame budget = (.rest r' (.finished result), budget)) :
    Turns home clock span none queue (notices ++ [completion (r'.handle id) (some r')]) [] x := by
  obtain ⟨base, hb, hx⟩ := h.attends hq
  have hbudget : (base.ticked clock).budget = home.budget := hb.budget
  refine turns_vacant (hb.ticked hp) (hx.trans (attend_finish ht hq.fresh hf hs ?_ ?_))
  · exact hbudget ▸ hq.capped
  · exact hbudget ▸ hq.room

theorem Hosts.start {f : Frame} {next : Bool → Micros → Endpoint × StepOutcome}
    (h : Hosts home clock none ((id, r) :: queue) [] notices x)
    (hq : Behind home r.address id queue) (hp : home.runPeriod ≤ span) (ht : r.isDue clock = true)
    (hf : r'.footprint = r.footprint)
    (hs : ∀ budget, r.step clock none budget = (.write f next, budget))
    (hn : next true clock = (r', .inProgress)) :
    Turns home clock span (some (id, r'.onAck (clock + span) .success)) queue notices [f] x := by
  obtain ⟨base, hb, rfl⟩ := h
  have ht : Takes base.settings clock id r none := ht
  exact turns_hosting hb hp
    ((tick_start hb.rested hq.same).trans (attend_write ht hq.fresh hf hs hn))

theorem Hosts.idle (h : Hosts home clock none [] [] notices x) (hp : home.runPeriod ≤ span) :
    Turns home clock span none [] notices [] x := by
  obtain ⟨base, hb, rfl⟩ := h
  exact turns_vacant (hb.ticked hp) ((tick_vacant hb.rested).trans attend_idle)

variable {f : Frame} {budget : Budget}

theorem Hosts.first {length : Nat} (h : Hosts home clock none [] [f] notices x)
    (hp : home.runPeriod ≤ span) (hf : home.settings.admits f = true)
    (hroom : (labelBytes : Int) ≤ home.budget.remaining) (htop : home.budget.remaining ≤ Budget.top)
    (hs : (Endpoint.receiver (.initial f.id home.settings.blockSize home.settings.separation)).step
      clock (some f) ⟨home.budget.remaining - labelBytes⟩ = (.rest r (.firstFrame length), budget))
    (hb : budget.remaining = home.budget.remaining - r.footprint) :
    ∃ i, Turns home clock span (some (i, r)) [] (notices ++ [.firstFrame r.address length r.kind])
      [] x := by
  obtain ⟨base, hbase, rfl⟩ := h
  have hbudget : (base.ticked clock).budget = home.budget := hbase.budget
  have hsettings : (base.ticked clock).settings = home.settings := hbase.settings
  rw [← hsettings] at hf hs
  rw [← hbudget] at hroom htop hs hb
  have hx : (hosting (base.ticked clock) none false [] [f] notices).run (attend base.settings)
      clock = _ :=
    attend_first hf hroom htop hs hb
  exact ⟨(base.ticked clock).fresh, _, (tick_vacant hbase.rested).trans hx,
    fun back => ⟨_, (hbase.ticked hp).adopted, false, r, rfl, rfl⟩⟩

theorem Hosts.single {result : TransferResult} (h : Hosts home clock none [] [f] notices x)
    (hp : home.runPeriod ≤ span) (hf : home.settings.admits f = true)
    (hroom : (labelBytes : Int) ≤ home.budget.remaining) (htop : home.budget.remaining ≤ Budget.top)
    (hs : (Endpoint.receiver (.initial f.id home.settings.blockSize home.settings.separation)).step
      clock (some f) ⟨home.budget.remaining - labelBytes⟩ = (.rest r (.finished result), budget))
    (hb : budget.remaining = home.budget.remaining - r.footprint) :
    ∃ i, Turns home clock span none [] (notices ++ [completion (r.handle i) (some r)]) [] x := by
  obtain ⟨base, hbase, rfl⟩ := h
  have hbudget : (base.ticked clock).budget = home.budget := hbase.budget
  have hsettings : (base.ticked clock).settings = home.settings := hbase.settings
  rw [← hsettings] at hf hs
  rw [← hbudget] at hroom htop hs hb
  have hx : (hosting (base.ticked clock) none false [] [f] notices).run (attend base.settings)
      clock = _ :=
    attend_single hf hroom htop hs hb
  exact ⟨(base.ticked clock).fresh, turns_vacant (hbase.ticked hp).adopted
    ((tick_vacant hbase.rested).trans hx)⟩

end NodeView

end CanTransport.Bench
