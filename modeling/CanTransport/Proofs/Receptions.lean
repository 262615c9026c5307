import CanTransport.Proofs.Delivery
import CanTransport.Proofs.Holdings

/-! # Receptions beside other conversations

A frame that no conversation waits for opens a reception, whatever else goes on at the station. A
frame that begins no message ends it in the same tick: nothing is left of it but the notice.
-/
namespace CanTransport

namespace ActiveSet
variable {active : ActiveSet} {key : Address}

theorem erase_of_free (hf : active.find? key = none) : active.erase key = active := by
  refine List.filter_eq_self.mpr fun p hp => decide_eq_true fun hk => ?_
  have hne := List.lookup_eq_none_iff.mp hf p hp
  simp [hk] at hne

theorem erase_insert (hf : active.find? key = none) (h : Handle) :
    (active.insert key h).erase key = active := by
  induction active with
  | nil => simp [insert, erase]
  | cons p rest ih =>
    obtain ⟨k, g⟩ := p
    have hall := erase_of_free hf
    rw [find?, List.lookup_cons] at hf
    by_cases hk : key = k
    · rw [hk, beq_self_eq_true] at hf
      cases hf
    · rw [beq_eq_false_iff_ne.mpr hk] at hf
      rw [insert, if_neg hk]
      split
      · rw [erase, List.filter_cons_of_neg (by simp)]
        exact hall
      · rw [erase, List.filter_cons_of_pos (by simpa using Ne.symm hk)]
        exact congrArg _ (ih hf)

end ActiveSet

theorem Outbox.release_other {o : Outbox} {address : Address} (h : ∀ e ∈ o, e.address ≠ address)
    (now : Micros) :
    o.release address now = (0, o) := by
  have hkept : (o.filter fun e => !(decide (e.address = address) && e.isResolved)) = o :=
    List.filter_eq_self.mpr fun e he => by simp [h e he]
  have hcount : o.countP (fun e => decide (e.address = address) && !e.isDetached) = 0 :=
    List.countP_eq_zero.mpr fun e he => by simp [h e he]
  have hmap : (o.map fun e => if decide (e.address = address) && !e.isDetached then
      e.detach now else e) = o :=
    (List.map_congr_left fun e he => by simp [h e he]).trans (List.map_id o)
  simp only [release, hkept, hcount, hmap, Nat.sub_self]

namespace Station
variable {s : Station} {r r' : Receiver}

/-- A station with one more conversation, that of a receiver. -/
def joined (s : Station) (r : Receiver) : Station :=
  { s with
    budget := ⟨s.budget.remaining - r.footprint⟩
    fresh := s.fresh + 1
    endpoints := s.endpoints ++ [(s.fresh, .receiver r)]
    active := s.active.insert r.address ((Endpoint.receiver r).handle s.fresh) }

theorem openReception_joined {address : Address} (settings : Settings)
    (hfree : s.active.find? address = none) (hroom : (labelBytes : Int) ≤ s.budget.remaining)
    (htop : s.budget.remaining ≤ Budget.top) :
    s.openReception address settings =
      (some ((Endpoint.receiver (.initial address settings.blockSize settings.separation)).handle
        s.fresh),
        s.joined (.initial address settings.blockSize settings.separation)) := by
  simp only [openReception, hfree, addReceiver, Receiver.create_eq address _ _ hroom htop, adopt]
  simp [joined, Receiver.footprint, Receiver.initial, Endpoint.handle, Endpoint.address]

theorem endpoint?_joined (hn : s.Numbered) (r : Receiver) :
    (s.joined r).endpoint? s.fresh = some (.receiver r) := by
  have h := endpoint?_adopt hn (.receiver r) s.budget s.fresh
  rwa [if_pos rfl] at h

theorem modifyEndpoint_joined {budget : Budget} (hn : s.Numbered) (ha : r'.address = r.address)
    (hb : budget.remaining = s.budget.remaining - r'.footprint) :
    { s.joined r with budget }.modifyEndpoint s.fresh (fun _ => .receiver r') = s.joined r' := by
  have hother :
      (s.endpoints.map fun p => (p.1, if p.1 = s.fresh then Endpoint.receiver r' else p.2)) =
      s.endpoints := map_others (f := fun _ => .receiver r') fun p hp => Nat.ne_of_lt (hn p hp)
  obtain ⟨remaining⟩ := budget
  obtain rfl : remaining = s.budget.remaining - r'.footprint := hb
  simp [modifyEndpoint, joined, hother, ha, Endpoint.handle, Endpoint.address,
    Endpoint.role, Endpoint.kind]

theorem takeFinished_single {h : Handle} (hf : s.finished = [h])
    (hc : s.active.find? h.address = some h) :
    s.takeFinished = ([h], { s with finished := [], active := s.active.erase h.address }) := by
  simp [takeFinished, hf, retireOne, isCurrent, hc]

theorem takeFinished_joined (hf : s.finished = []) (hfree : s.active.find? r.address = none) :
    ((s.joined r).markFinished ((Endpoint.receiver r).handle s.fresh)).takeFinished =
      ([(Endpoint.receiver r).handle s.fresh], { s.joined r with active := s.active }) := by
  generalize hh : (Endpoint.receiver r).handle s.fresh = h
  have ha : h.address = r.address := hh ▸ rfl
  have hlisted : ((s.joined r).markFinished h).finished = [h] := congrArg (· ++ [h]) hf
  have hcurrent : ((s.joined r).markFinished h).active.find? h.address = some h := by
    change (s.active.insert r.address ((Endpoint.receiver r).handle s.fresh)).find? h.address = _
    rw [hh, ActiveSet.find?_insert, if_pos ha]
  have herase := ActiveSet.erase_insert hfree h
  rw [takeFinished_single hlisted hcurrent, ha]
  simp only [markFinished, joined, hh, herase, hf]

theorem drop_joined (hn : s.Numbered) (hroom : (r.footprint : Int) ≤ s.budget.remaining)
    (htop : s.budget.remaining ≤ Budget.top) :
    { s.joined r with active := s.active }.drop s.fresh = s.adopted := by
  have hr : { s.joined r with active := s.active }.endpoint? s.fresh = some (.receiver r) :=
    endpoint?_joined hn r
  have hkept : (s.endpoints ++ [(s.fresh, Endpoint.receiver r)]).filter (·.1 ≠ s.fresh) =
      s.endpoints := by
    rw [List.filter_append, List.filter_cons_of_neg (by simp), List.filter_nil, List.append_nil]
    exact List.filter_eq_self.mpr fun p hp => decide_eq_true (Nat.ne_of_lt (hn p hp))
  have hback : Budget.release ⟨s.budget.remaining - r.footprint⟩ r.footprint = s.budget := by
    have h : (Budget.release ⟨s.budget.remaining - r.footprint⟩ r.footprint).remaining = _ :=
      Budget.release_eq (Int.sub_nonneg_of_le hroom) (by simpa using htop)
    rw [Int.sub_add_cancel] at h
    exact congrArg Budget.mk h
  rw [drop, hr]
  simp only [joined, adopted, Endpoint.footprint, hkept, hback]

end Station

namespace Bench.NodeRun
open Station
variable {d : NodeRun} {f : Frame} {settings : Settings} {r' : Receiver} {outcome : StepOutcome}
  {rest : Budget}

/-- The receiver takes the frame that it is opened for. -/
theorem openReceiver_run (settings : Settings) (hn : d.station.Numbered)
    (hfree : d.station.active.find? f.id = none)
    (hroom : (labelBytes : Int) ≤ d.station.budget.remaining)
    (htop : d.station.budget.remaining ≤ Budget.top)
    (hs : (Receiver.initial f.id settings.blockSize settings.separation).step d.clock (some f)
      ⟨d.station.budget.remaining - labelBytes⟩ = (.rest r' outcome, rest))
    (hb : rest.remaining = d.station.budget.remaining - r'.footprint) :
    (openReceiver f settings).run answer d =
      (passOn ((Endpoint.receiver r').handle d.station.fresh) outcome).run answer
        { d with station := d.station.joined r' } := by
  have hopen := openReception_joined settings hfree hroom htop
  have ha : r'.address = f.id := by
    have h := (Receiver.initial f.id settings.blockSize settings.separation).address_step
        d.clock d.clock (some f)
      ⟨d.station.budget.remaining - labelBytes⟩ true
    rwa [hs] at h
  generalize hr : Receiver.initial f.id settings.blockSize settings.separation = r at hopen hs
  have hr' : r'.address = r.address := ha.trans (hr ▸ rfl)
  have hbudget : (d.station.joined r).budget = ⟨d.station.budget.remaining - labelBytes⟩ := by
    simp [joined, ← hr, Receiver.footprint, Receiver.initial]
  rw [← hbudget] at hs
  have hstep := stepEndpoint_rest (d := { d with station := d.station.joined r })
      (endpoint?_joined hn r)
    (Endpoint.receiver_rest hs)
  rw [show _ = d.station.joined r' from modifyEndpoint_joined hn hr' hb] at hstep
  have hi : ((Endpoint.receiver r).handle d.station.fresh).id = d.station.fresh := rfl
  have hh : (Endpoint.receiver r').handle d.station.fresh =
      (Endpoint.receiver r).handle d.station.fresh :=
    Endpoint.handle_receiver hr' _
  simp only [openReceiver, Program.bind_eq, Program.run_bind, run_withLock, run_modifyGet, hopen,
    hh]
  dsimp only [Except.toOption, Option.join, Option.bind, id]
  rw [Program.run_bind, hi, hstep]

theorem retire_joined {r : Receiver} (hn : d.station.Numbered)
    (hfree : d.station.active.find? r.address = none)
    (hroom : (r.footprint : Int) ≤ d.station.budget.remaining)
    (htop : d.station.budget.remaining ≤ Budget.top) (hfinished : d.station.finished = [])
    (hothers : ∀ e ∈ d.station.outbox, e.address ≠ r.address) :
    (retire.run answer { d with
        station := (d.station.joined r).markFinished ((Endpoint.receiver r).handle d.station.fresh)
          }).2 =
      { d with
        station := d.station.adopted
        notices := d.notices ++
          [completion ((Endpoint.receiver r).handle d.station.fresh) (some (.receiver r))] } := by
  have hi : ((Endpoint.receiver r).handle d.station.fresh).id = d.station.fresh := rfl
  have ha : ((Endpoint.receiver r).handle d.station.fresh).address = r.address := rfl
  have hrelease : { d.station.joined r with active := d.station.active }.releaseEntries r.address
      d.clock = (0, { d.station.joined r with active := d.station.active }) := by
    have hother : (d.station.joined r).outbox.release r.address d.clock = (0, d.station.outbox) :=
      Outbox.release_other hothers d.clock
    rw [releaseEntries, hother]
    rfl
  have hr : { d.station.joined r with active := d.station.active }.endpoint? d.station.fresh =
      some (.receiver r) :=
    endpoint?_joined hn r
  simp only [retire, report, forget, reportEnd, Program.bind_eq, Program.run_bind,
    run_withLock, run_modifyGet, takeFinished_joined hfinished hfree, ha, hrelease, run_now,
    run_get, run_notify, run_modify, hi, hr]
  exact congrArg (fun s => ({ d with
    station := s
    notices := d.notices ++
      [completion ((Endpoint.receiver r).handle d.station.fresh) (some (.receiver r))] } : NodeRun))
    (drop_joined hn hroom htop)

/-- A frame that begins no message is turned down, and all that is left of it is the notice. -/
theorem turnsDown (settings : Settings) (hn : d.station.Numbered)
    (hfree : d.station.active.find? f.id = none)
    (hroom : (labelBytes : Int) ≤ d.station.budget.remaining)
    (htop : d.station.budget.remaining ≤ Budget.top) (hfinished : d.station.finished = [])
    (hothers : ∀ e ∈ d.station.outbox, e.address ≠ f.id) (hsingle : f.pduType? ≠ some .singleFrame)
    (hfirst : f.pduType? ≠ some .firstFrame) :
    (retire.run answer ((openReceiver f settings).run answer d).2).2 =
      { d with
        station := d.station.adopted
        notices := d.notices ++ [.indication f.id [] (.error .unexpectedPdu) .diagnostics] } := by
  have hstep : (Receiver.initial f.id settings.blockSize settings.separation).step d.clock (some f)
      ⟨d.station.budget.remaining - labelBytes⟩ =
      (((Receiver.initial f.id settings.blockSize settings.separation).noteReply d.clock).fail
        d.clock .unexpectedPdu, ⟨d.station.budget.remaining - labelBytes⟩) := by
    rw [Receiver.step_act rfl rfl rfl]
    change Receiver.openWith _ d.clock f _ = _
    unfold Receiver.openWith
    split
    · next hk => exact absurd hk hsingle
    · next hk => exact absurd hk hfirst
    · rfl
  have hopen := openReceiver_run settings hn hfree hroom htop hstep
      (by simp [Receiver.footprint, Receiver.finish,
    Receiver.noteReply, Receiver.initial])
  rw [hopen, Receiver.outcome]
  exact retire_joined hn hfree (by simpa [Receiver.footprint, Receiver.finish, Receiver.noteReply,
    Receiver.initial] using hroom) htop hfinished hothers

variable {base : Station} {id : EndpointId} {r next : Endpoint}
  {queue : List (EndpointId × Endpoint)} {unheard : Bool} {notices : List Notice} {clock : Micros}

/-- An endpoint that does not wait for frames lets one pass, and takes a step without it. -/
theorem dispatch_pass (hr : d.station.endpoint? id = some r) (hw : r.isAwaiting = false)
    (hd : r.isDue d.clock = true) :
    (dispatch d.clock (some f) [r.handle id]).run answer d =
      (some f, (((stepEndpoint id none).bind (passOn (r.handle id))).run answer d).2) := by
  have hi : (r.handle id).id = id := rfl
  by_cases ha : (r.handle id).accepts f.id = true
  · simp [dispatch, dispatchOne, isAwaiting, isDue, Program.run_bind, hi, hr, ha, hw, hd]
  · simp [dispatch, dispatchOne, isDue, Program.run_bind, hi, hr, ha, hd]

/-- The frame that is let pass opens a reception. -/
theorem attend_pass (hf : settings.admits f = true) (hw : r.isAwaiting = false)
    (hd : r.isDue clock = true) :
    ((attend settings).run answer ⟨⟨hosting base (some (id, r)) unheard queue, [f], [], notices⟩,
      clock, []⟩).2 = (retire.run answer ((openReceiver f settings).run answer
        (((stepEndpoint id none).bind (passOn (r.handle id))).run answer
          ⟨⟨hosting base (some (id, r)) unheard queue, [], [], notices⟩, clock, []⟩).2).2).2 := by
  have hreceive : (receiveFrame settings).run answer
      ⟨⟨hosting base (some (id, r)) unheard queue, [f], [], notices⟩, clock, []⟩ =
      (some f, ⟨⟨hosting base (some (id, r)) unheard queue, [], [], notices⟩, clock, []⟩) := by
    apply receiveFrame_run rfl
    intro g hg
    exact Option.some.inj hg ▸ hf
  have hdispatch :=
    dispatch_pass (d := ⟨⟨hosting base (some (id, r)) unheard queue, [], [], notices⟩, clock, []⟩)
      (f := f) endpoint?_hosting hw hd
  have ha : (hosting base (some (id, r)) unheard queue).active.handles = [r.handle id] := rfl
  simp only [attend, Program.bind_eq, Program.run_bind, hreceive, run_withLock, run_get,
    run_now, ha, hdispatch]

theorem attend_pass_rest (hf : settings.admits f = true) (hw : r.isAwaiting = false)
    (hd : r.isDue clock = true) (hid : id ∉ queue.map (·.1)) (hp : next.footprint = r.footprint)
    (hs : ∀ budget, r.step clock none budget = (.rest next .inProgress, budget)) :
    ((attend settings).run answer ⟨⟨hosting base (some (id, r)) unheard queue, [f], [], notices⟩,
      clock, []⟩).2 = (retire.run answer ((openReceiver f settings).run answer
        ⟨⟨hosting base (some (id, next)) unheard queue, [], [], notices⟩, clock, []⟩).2).2 := by
  have hh : next.handle id = r.handle id := by
    have h := r.handle_step id clock clock none ⟨0⟩ true
    rwa [hs] at h
  have hm : (hosting base (some (id, r)) unheard queue).modifyEndpoint id (fun _ => next) = _ :=
    modifyEndpoint_hosting hid hh hp
  have hstep := stepEndpoint_rest
      (d := ⟨⟨hosting base (some (id, r)) unheard queue, [], [], notices⟩, clock, []⟩)
    endpoint?_hosting (hs _)
  rw [attend_pass hf hw hd, Program.run_bind, hstep]
  exact congrArg (fun s => (retire.run answer ((openReceiver f settings).run answer
    ⟨⟨s, [], [], notices⟩, clock, []⟩).2).2) hm

theorem attend_pass_write {g : Frame} {finish : Bool → Micros → Endpoint × StepOutcome}
    (hf : settings.admits f = true) (hw : r.isAwaiting = false) (hd : r.isDue clock = true)
    (hid : id ∉ queue.map (·.1)) (hp : next.footprint = r.footprint)
    (hs : ∀ budget, r.step clock none budget = (.write g finish, budget))
    (hn : finish true clock = (next, .inProgress)) :
    ((attend settings).run answer
      ⟨⟨hosting base (some (id, r)) false queue, [f], [], notices⟩, clock, []⟩).2 =
      (retire.run answer ((openReceiver f settings).run answer
        ⟨⟨hosting base (some (id, next)) true queue, [], [.success], notices⟩,
          clock, [g]⟩).2).2 := by
  have hh : next.handle id = r.handle id := by
    have h := r.handle_step id clock clock none ⟨0⟩ true
    rwa [hs, Move.finish_write, hn] at h
  have hstep := stepEndpoint_write
      (d := ⟨⟨hosting base (some (id, r)) false queue, [], [], notices⟩, clock, []⟩)
    endpoint?_hosting (hs _) hn
  rw [attend_pass hf hw hd, Program.run_bind, hstep]
  exact congrArg (fun s => (retire.run answer ((openReceiver f settings).run answer
    ⟨⟨s, [], [.success], notices⟩, clock, [g]⟩).2).2) (modifyEndpoint_pushed hid hh hp)

end Bench.NodeRun
end CanTransport
