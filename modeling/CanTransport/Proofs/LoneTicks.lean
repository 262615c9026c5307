import CanTransport.Proofs.Attendance
import CanTransport.Proofs.LockDiscipline
import CanTransport.Proofs.Ownership
import CanTransport.Proofs.LoneStation

/-! # What a station by itself does in a tick

Every lock that a tick asks for is had, so each of its parts has one effect. A conversation's turn
touches nobody else, and at the end those that are over are reported and dropped.
-/
namespace CanTransport

def Event.notice? : Event → Option (EndpointId × Notice)
  | .told source notice => some (source, notice)
  | _ => none

def noticesIn (events : List Event) : List (EndpointId × Notice) := events.filterMap Event.notice?

theorem noticesIn_append (events more : List Event) :
    noticesIn (events ++ more) = noticesIn events ++ noticesIn more :=
  List.filterMap_append

namespace Scene

/-- Two scenes agree but for one endpoint, as far as what is written, told and retired goes. -/
structure Beside (a : EndpointId) (c c' : Scene) : Prop where
  held : c'.held = c.held
  endpoint : ∀ id, id ≠ a → c'.station.endpoint? id = c.station.endpoint? id
  running : ∀ key, (c'.station.active.find? key).filter (·.id ≠ a) =
    (c.station.active.find? key).filter (·.id ≠ a)
  finished : c'.station.finished.filter (·.id ≠ a) = c.station.finished.filter (·.id ≠ a)
  writes : (writesIn c'.events).filter (·.1 ≠ a) = (writesIn c.events).filter (·.1 ≠ a)
  notices : (noticesIn c'.events).filter (·.1 ≠ a) = (noticesIn c.events).filter (·.1 ≠ a)

structure AlikeBut (a : EndpointId) (c c' : Scene) : Prop where
  endpoint : ∀ id, id ≠ a → c'.station.endpoint? id = c.station.endpoint? id
  running : ∀ key, (c'.station.active.find? key).filter (·.id ≠ a) =
    (c.station.active.find? key).filter (·.id ≠ a)
  writes : (writesIn c'.events).filter (·.1 ≠ a) = (writesIn c.events).filter (·.1 ≠ a)
  notices : (noticesIn c'.events).filter (·.1 ≠ a) = (noticesIn c.events).filter (·.1 ≠ a)

variable {a : EndpointId} {c c₁ c' : Scene}

theorem Beside.refl (a : EndpointId) (c : Scene) :
    Beside a c c := ⟨rfl, fun _ _ => rfl, fun _ => rfl, rfl, rfl, rfl⟩

theorem Beside.trans (h : Beside a c c₁) (h' : Beside a c₁ c') : Beside a c c' where
  held := h'.held.trans h.held
  endpoint id hid := (h'.endpoint id hid).trans (h.endpoint id hid)
  running key := (h'.running key).trans (h.running key)
  finished := h'.finished.trans h.finished
  writes := h'.writes.trans h.writes
  notices := h'.notices.trans h.notices

/-- From one scene to the other one endpoint has its turn. -/
structure Turned (a : EndpointId) (c c' : Scene) : Prop extends Beside a c c' where
  station : ∃ endpoints budget outbox finished,
    c'.station = { c.station with endpoints, budget, outbox, finished }

theorem Turned.refl (a : EndpointId) (c : Scene) : Turned a c c := ⟨.refl a c, _, _, _, _, rfl⟩

theorem Turned.trans (h : Turned a c c₁) (h' : Turned a c₁ c') : Turned a c c' := by
  obtain ⟨endpoints, budget, outbox, finished, hs⟩ := h.station
  obtain ⟨endpoints', budget', outbox', finished', hs'⟩ := h'.station
  exact ⟨h.toBeside.trans h'.toBeside, endpoints', budget', outbox', finished', by rw [hs', hs]⟩

theorem Turned.put (c : Scene) (id : EndpointId) (budget : Budget) (next : Endpoint) :
    Turned id c (c.access fun s => (s.setBudget budget).modifyEndpoint id fun _ => next) :=
  ⟨⟨rfl, fun _ hi => Station.endpoint?_put_of_ne (c.station.setBudget budget) hi next, fun _ =>
    rfl, rfl, rfl, rfl⟩, _, _, _, _, rfl⟩

theorem Turned.sent (c : Scene) (id : EndpointId) (address : Address) (frame : Frame) :
    Turned id c ((c.note (.accepted id frame)).access fun s =>
      { s with outbox := s.outbox.push address id }) := by
  refine ⟨⟨rfl, fun _ _ => rfl, fun _ => rfl, rfl, ?_, ?_⟩, _, _, _, _, rfl⟩
  · change (writesIn (c.events ++ [.accepted id frame])).filter _ = _
    rw [writesIn_accepted, List.filter_append]
    simp
  · change (noticesIn (c.events ++ [.accepted id frame])).filter _ = _
    rw [noticesIn_append]
    exact congrArg _ (List.append_nil _)

theorem Turned.passed (c : Scene) (h : Handle) (outcome : StepOutcome) :
    Turned h.id c (c.passed h outcome) := by
  cases outcome with
  | inProgress => exact .refl _ c
  | firstFrame length =>
    refine ⟨⟨rfl, fun _ _ => rfl, fun _ => rfl, rfl, ?_, ?_⟩, _, _, _, _, rfl⟩
    · exact congrArg _ (writesIn_append_of_none c.events rfl)
    · change (noticesIn (c.events ++ [.told h.id _])).filter _ = _
      rw [noticesIn_append, List.filter_append]
      simp [noticesIn, Event.notice?]
  | finished result =>
    refine ⟨⟨rfl, fun _ _ => rfl, fun _ => rfl, ?_, rfl, rfl⟩, _, _, _, _, rfl⟩
    change (c.station.finished ++ [h]).filter _ = _
    rw [List.filter_append]
    simp

end Scene

namespace Station

/-- A conversation's step, and what it brings about. -/
def turn (h : Handle) (frame : Option Frame) : Action Unit :=
  stepEndpoint h.id frame >>= fun outcome => passOn h outcome

end Station

namespace LoneStation
open CanTransport.Action CanTransport.Station
variable {δ α : Type} {w : Device δ} {x y : LoneStation δ} {id : EndpointId} {frame : Option Frame}
  {r : Endpoint} {h : Handle}

theorem access_congr {f : Station → Station} (f' : Station → Station)
    (he : f x.station = f' x.station) :
    x.access f = x.access f' :=
  congrArg (fun c => ({ x with scene := c } : LoneStation δ)) (CanTransport.access_congr f' he)

def passed (x : LoneStation δ) (h : Handle) (outcome : StepOutcome) : LoneStation δ :=
  { x with scene := x.scene.passed h outcome }

def claims (x : LoneStation δ) (frame : Option Frame) (h : Handle) : Bool :=
  frame.any fun f => h.accepts f.id && (x.station.endpoint? h.id).any (·.isAwaiting)

/-- A step is begun and brought to its end under the endpoint's lock. -/
theorem run_stepEndpoint (hl : .endpoint id ∉ x.scene.held)
    {begun : Option (Address × Move Endpoint)} {s : Station}
    (hb : x.station.beginStep id frame (w.now x.device).1 = (begun, s)) :
    (stepEndpoint id frame).run w.alone x =
      begun.elim (.finished (.error .internal), (x.ask w.now).2.access fun _ => s) fun p =>
        let ended := (finishStep id p.1 p.2).run w.alone
            (((x.ask w.now).2.access fun _ => s).lock (.endpoint id))
        (ended.1, ended.2.unlock (.endpoint id)) := by
  have hbegun :
      (((x.lock (.endpoint id)).ask w.now).2.station.beginStep id frame
        ((x.lock (.endpoint id)).ask w.now).1) =
      (begun, s) := hb
  have hchange : ((x.lock (.endpoint id)).ask w.now).2.access
      (fun s => (s.beginStep id frame ((x.lock (.endpoint id)).ask w.now).1).2) =
        ((x.ask w.now).2.access fun _ => s).lock (.endpoint id) :=
        access_congr (fun _ => s) (congrArg Prod.snd hb)
  unfold stepEndpoint
  rw [Program.bind_eq, Program.run_bind, Device.alone, run_withLock w _ x _ hl, Program.bind_eq,
    Program.run_bind, run_now, Program.bind_eq, Program.run_bind, run_modifyGet, hbegun, hchange]
  cases begun with
  | none => exact congrArg (Prod.mk _) (unlock_lock _ _)
  | some p => rfl

theorem run_step_none (hl : .endpoint id ∉ x.scene.held) (hr : x.station.endpoint? id = none) :
    (stepEndpoint id frame).run w.alone x = (.finished (.error .internal), (x.ask w.now).2) := by
  have hbegin : x.station.beginStep id frame (w.now x.device).1 = (none, x.station) := by
    rw [beginStep, hr]
  rw [run_stepEndpoint hl hbegin]
  refine congrArg (Prod.mk _) ?_
  exact congrArg (fun c => ({ (x.ask w.now).2 with scene := c } : LoneStation δ))
    (access_eq_self (c := x.scene) rfl)

theorem run_step_rest {next : Endpoint} {outcome : StepOutcome} {budget : Budget}
    (hl : .endpoint id ∉ x.scene.held) (hr : x.station.endpoint? id = some r)
    (hm : r.step (w.now x.device).1 frame x.station.budget = (.rest next outcome, budget)) :
    (stepEndpoint id frame).run w.alone x =
      (outcome, (x.ask w.now).2.access fun s => (s.setBudget budget).modifyEndpoint id fun _ =>
        next) := by
  have hbegin : x.station.beginStep id frame (w.now x.device).1 =
      (some (r.address, .rest next outcome), (x.station.setBudget budget).modifyEndpoint id fun _ =>
        next) := by
    rw [beginStep, hr]
    simp only [hm]
    rfl
  rw [run_stepEndpoint hl hbegin]
  refine congrArg (Prod.mk _) ((unlock_lock _ _).trans ?_)
  exact access_congr _ rfl

theorem run_step_write {f : Frame} {next : Bool → Micros → Endpoint × StepOutcome}
    {budget : Budget} {accepted : Bool} (hl : .endpoint id ∉ x.scene.held)
    (hfree : .outbox ∉ x.scene.held) (hr : x.station.endpoint? id = some r)
    (hm : r.step (w.now x.device).1 frame x.station.budget = (.write f next, budget))
    (ho : ((x.ask w.now).2.access (·.setBudget budget)).offer w id r.address f = (accepted, y)) :
    (stepEndpoint id frame).run w.alone x = ((next accepted (w.now y.device).1).2,
      (y.ask w.now).2.access (·.modifyEndpoint id fun _ =>
        (next accepted (w.now y.device).1).1)) := by
  have hbegin : x.station.beginStep id frame (w.now x.device).1 =
      (some (r.address, .write f next), x.station.setBudget budget) := by
    rw [beginStep, hr]
    simp only [hm]
    rfl
  have hsame : (x.ask w.now).2.access (fun _ => x.station.setBudget budget) =
      (x.ask w.now).2.access (·.setBudget budget) :=
    access_congr _ rfl
  have hlocked :
      .outbox ∉ (((x.ask w.now).2.access (·.setBudget budget)).lock (.endpoint id)).scene.held :=
      fun hmem =>
    hfree ((List.mem_cons.mp hmem).resolve_left (by simp))
  rw [run_stepEndpoint hl hbegin]
  dsimp only [Option.elim]
  rw [hsame, finishStep, Program.bind_eq, Program.run_bind, run_send hlocked, offer_lock, ho]
  exact congrArg (Prod.mk _) (unlock_lock ((y.ask w.now).2.access (·.modifyEndpoint id fun _ =>
    (next accepted (w.now y.device).1).1)) (.endpoint id))

theorem run_inspect (hl : .endpoint id ∉ x.scene.held) (view : Endpoint → Bool) :
    (inspect id view).run w.alone x = ((x.station.endpoint? id).any view, x) := by
  rw [inspect, Program.bind_eq, Program.run_bind, run_look hl]
  rfl

theorem run_passOn (hc : .conversations ∉ x.scene.held) (outcome : StepOutcome) :
    (passOn h outcome).run w.alone x = ((), x.passed h outcome) := by
  cases outcome with
  | inProgress | firstFrame => rfl
  | finished result =>
    unfold passOn
    rw [Program.bind_eq, Program.run_bind, Device.alone, run_withLock w _ x _ hc, run_modify]
    exact congrArg (Prod.mk ()) (unlock_lock (x.access (·.markFinished h)) .conversations)

/-- A step touches no endpoint but its own. -/
theorem turned_step (hu : Unlocked x.scene.held) :
    Scene.Turned id x.scene ((stepEndpoint id frame).run w.alone x).2.scene := by
  have hl : .endpoint id ∉ x.scene.held := hu.free (by simp)
  cases hr : x.station.endpoint? id with
  | none =>
    rw [run_step_none hl hr]
    exact .refl id _
  | some r =>
    cases hm : r.step (w.now x.device).1 frame x.station.budget with
    | mk move budget =>
      cases move with
      | rest next outcome =>
        rw [run_step_rest hl hr hm]
        exact .put x.scene id budget next
      | write f next =>
        obtain ⟨accepted, y, ho⟩ : ∃ accepted y,
            ((x.ask w.now).2.access (·.setBudget budget)).offer w id r.address f = (accepted, y) :=
            ⟨_, _, rfl⟩
        have hoffer : Scene.Turned id x.scene y.scene := by
          have hpaid : Scene.Turned id x.scene (x.scene.access (·.setBudget budget)) :=
            ⟨⟨rfl, fun _ _ => rfl, fun _ => rfl, rfl, rfl, rfl⟩, _, _, _, _, rfl⟩
          have hy : y =
              (((x.ask w.now).2.access (·.setBudget budget)).offer w id r.address f).2 := by rw [ho]
          rw [hy, offer]
          split
          · exact hpaid.trans (.sent _ id r.address f)
          · exact hpaid
        rw [run_step_write hl (hu.free (by simp)) hr hm ho]
        exact hoffer.trans (.put y.scene id y.station.budget _)

theorem run_turn (hu : Unlocked x.scene.held) : (turn h frame).run w.alone x =
    ((), ((stepEndpoint h.id frame).run w.alone x).2.passed h
      ((stepEndpoint h.id frame).run w.alone x).1) := by
  rw [turn, Program.bind_eq, Program.run_bind]
  exact run_passOn ((turned_step hu).held ▸ hu.free (by simp)) _

theorem turned_turn (hu : Unlocked x.scene.held) :
    Scene.Turned h.id x.scene ((turn h frame).run w.alone x).2.scene := by
  rw [run_turn hu]
  exact (turned_step hu).trans (.passed _ h _)

theorem run_dispatchOne (hu : Unlocked x.scene.held) (tickAt : Micros) (frame : Option Frame)
    (h : Handle) :
    (dispatchOne tickAt frame h).run w.alone x =
    if x.claims frame h then (none, ((turn h frame).run w.alone x).2)
    else if (x.station.endpoint? h.id).any (·.isDue tickAt)
      then (frame, ((turn h none).run w.alone x).2)
    else (frame, x) := by
  have hl : .endpoint h.id ∉ x.scene.held := hu.free (by simp)
  have hgoes (claims : Bool) : (if claims then turn h frame >>= fun _ => pure none
      else isDue h.id tickAt >>= fun due => if due then turn h none >>= fun _ => pure frame
        else pure frame : Action (Option Frame)).run w.alone x =
      if claims then (none, ((turn h frame).run w.alone x).2)
      else if (x.station.endpoint? h.id).any (·.isDue tickAt)
        then (frame, ((turn h none).run w.alone x).2)
      else (frame, x) := by
    cases claims with
    | true =>
      rw [if_pos rfl, if_pos rfl, Program.bind_eq, Program.run_bind]
      rfl
    | false =>
      rw [if_neg Bool.false_ne_true, if_neg Bool.false_ne_true, Program.bind_eq, Program.run_bind,
        isDue, run_inspect hl]
      cases (x.station.endpoint? h.id).any (·.isDue tickAt) with
      | true =>
        dsimp only
        rw [if_pos rfl, if_pos rfl, Program.bind_eq, Program.run_bind]
        rfl
      | false => rfl
  rw [dispatchOne_eq]
  cases frame with
  | none => exact hgoes false
  | some f =>
    rw [claims, Option.any_some]
    dsimp only
    cases h.accepts f.id with
    | false => exact hgoes false
    | true =>
      rw [if_pos rfl, Program.bind_eq, Program.run_bind, isAwaiting, run_inspect hl, Bool.true_and]
      exact hgoes _

theorem turned_dispatchOne (hu : Unlocked x.scene.held) (tickAt : Micros) (frame : Option Frame)
    (h : Handle) :
    Scene.Turned h.id x.scene ((dispatchOne tickAt frame h).run w.alone x).2.scene := by
  rw [run_dispatchOne hu]
  split
  · exact turned_turn hu
  · split
    · exact turned_turn hu
    · exact .refl _ _

theorem run_reportEnd (hl : .endpoint h.id ∉ x.scene.held) : (reportEnd h).run w.alone x =
    ((), x.note (.told h.id (completion h (x.station.endpoint? h.id)))) := by
  unfold reportEnd
  rw [Program.bind_eq, Program.run_bind, Device.alone, run_withLock w _ x _ hl, Program.bind_eq,
    Program.run_bind, run_get]
  exact congrArg (Prod.mk ())
    (unlock_lock (x.note (.told h.id (completion h (x.station.endpoint? h.id)))) (.endpoint h.id))

theorem run_report (hu : Unlocked x.scene.held) (handles : List Handle) :
    let y := ((report handles).run w.alone x).2
    y.scene.held = x.scene.held ∧ (∃ outbox, y.station = { x.station with outbox }) ∧
      y.scene.events = x.scene.events ++ handles.map fun h =>
      .told h.id (completion h (x.station.endpoint? h.id)) := by
  induction handles generalizing x with
  | nil => exact ⟨rfl, ⟨_, rfl⟩, (List.append_nil _).symm⟩
  | cons h rest ih =>
    rw [report, Program.bind_eq, Program.run_bind, run_forget (hu.free (by simp)),
      Program.bind_eq, Program.run_bind]
    generalize hy :
      ((x.ask w.now).2.access fun s => (s.releaseEntries h.address (w.now x.device).1).2) = y
    have hheld : y.scene.held = x.scene.held := hy ▸ rfl
    have hstation : ∃ outbox, y.station = { x.station with outbox } := hy ▸ ⟨_, rfl⟩
    have hevents : y.scene.events = x.scene.events := hy ▸ rfl
    obtain ⟨outbox, hs⟩ := hstation
    have hendpoint (id : EndpointId) : y.station.endpoint? id = x.station.endpoint? id := by
      rw [hs]; rfl
    rw [run_reportEnd (hheld ▸ hu.free (by simp))]
    obtain ⟨hheld', ⟨outbox', hs'⟩, hevents'⟩ :=
      ih (x := y.note (.told h.id (completion h (y.station.endpoint? h.id)))) (hheld ▸ hu)
    refine ⟨hheld'.trans hheld,
      ⟨outbox', hs'.trans (by rw [show (y.note _).station = y.station from rfl, hs])⟩, ?_⟩
    refine hevents'.trans ?_
    change (y.scene.events ++ [.told h.id (completion h (y.station.endpoint? h.id))]) ++
      rest.map (fun h => .told h.id (completion h (y.station.endpoint? h.id))) = _
    simp only [hendpoint, hevents, List.map_cons, List.append_assoc, List.singleton_append]

theorem run_retire (hu : Unlocked x.scene.held) :
    let y := (retire.run w.alone x).2
    y.scene.held = x.scene.held ∧
      y.station.active = x.station.takeFinished.2.active ∧
      (∀ id, y.station.endpoint? id = if id ∈ x.station.takeFinished.1.map (·.id) then none else
        x.station.endpoint? id) ∧
      y.scene.events = x.scene.events ++
        x.station.takeFinished.1.map fun h =>
        .told h.id (completion h (x.station.endpoint? h.id)) := by
  have htake : (withLock .conversations (modifyGet takeFinished)).run w.alone x =
      (.ok x.station.takeFinished.1, x.access fun s => s.takeFinished.2) := by
    rw [Device.alone, run_withLock w _ x _ (hu.free (by simp)), run_modifyGet]
    exact congrArg (Prod.mk _) (unlock_lock (x.access fun s => s.takeFinished.2) .conversations)
  unfold retire
  rw [Program.bind_eq, Program.run_bind, htake]
  dsimp only
  rw [Program.bind_eq, Program.run_bind]
  have hendpoint (id : EndpointId) : (x.access fun s => s.takeFinished.2).station.endpoint? id =
      x.station.endpoint? id :=
    endpoint?_takeFinished x.station id
  obtain ⟨hheld, ⟨outbox, hs⟩, hevents⟩ :=
    run_report (w := w) (x := x.access fun s => s.takeFinished.2) hu x.station.takeFinished.1
  generalize ((report x.station.takeFinished.1).run w.alone (x.access fun s => s.takeFinished.2)).2
    = y at hheld hs hevents
  refine ⟨hheld, ?_, fun id => ?_, hevents.trans (by simp only [hendpoint]; rfl)⟩
  · change (y.station.dropAll x.station.takeFinished.1).active = _
    rw [dropAll_active, hs]
    rfl
  have hkept : y.station.endpoint? id = x.station.endpoint? id := by
    rw [← hendpoint id, hs]
    rfl
  change (y.station.dropAll x.station.takeFinished.1).endpoint? id = _
  split
  · next hmem =>
    obtain ⟨h, hh, rfl⟩ := List.mem_map.mp hmem
    exact endpoint?_dropAll_of_mem hh
  · next hmem =>
    rw [endpoint?_dropAll fun h hh he => hmem (List.mem_map.mpr ⟨h, hh, he⟩), hkept]

end LoneStation

namespace Station

/-- Two rounds of retiring agree but for one endpoint. -/
structure RetireAlikeBut (a : EndpointId) (p q : List Handle × Station) : Prop where
  retired : q.1.filter (·.id ≠ a) = p.1.filter (·.id ≠ a)
  running : ∀ key, (q.2.active.find? key).filter (·.id ≠ a) =
    (p.2.active.find? key).filter (·.id ≠ a)

variable {a : EndpointId} {p q o : List Handle × Station} {h : Handle}

theorem RetireAlikeBut.symm (h : RetireAlikeBut a p q) :
    RetireAlikeBut a q p := ⟨h.retired.symm, fun key => (h.running key).symm⟩

theorem RetireAlikeBut.trans (h : RetireAlikeBut a p q) (h' : RetireAlikeBut a q o) :
    RetireAlikeBut a p o :=
  ⟨h'.retired.trans h.retired, fun key => (h'.running key).trans (h.running key)⟩

/-- Retiring the endpoint left out does not count. -/
theorem retireAlikeBut_retireOne (p : List Handle × Station) (hid : h.id = a) :
    RetireAlikeBut a p (retireOne p h) := by
  obtain ⟨retired, s⟩ := p
  unfold retireOne
  dsimp only
  split
  · next hcurrent =>
    refine ⟨by simp [List.filter_append, hid], fun key => ?_⟩
    change ((s.active.erase h.address).find? key).filter _ = _
    rw [ActiveSet.find?_erase]
    split
    · next hkey =>
      obtain ⟨g, hg, hsame⟩ := Option.any_eq_true _ _ |>.mp hcurrent
      rw [hkey, hg, Option.filter_some, if_neg (by simpa [hid] using hsame)]
      rfl
    · rfl
  · exact ⟨rfl, fun _ => rfl⟩

theorem RetireAlikeBut.both (hs : RetireAlikeBut a p q) (hid : h.id ≠ a) :
    RetireAlikeBut a (retireOne p h) (retireOne q h) := by
  have hcurrent (s : Station) : s.isCurrent h = ((s.active.find? h.address).filter (·.id ≠ a)).any
      (·.id = h.id) := by
    rw [isCurrent]
    cases s.active.find? h.address with
    | none => rfl
    | some g =>
      rw [Option.filter_some]
      by_cases hg : g.id = a
      · simp [hg, Ne.symm hid]
      · simp [hg]
  obtain ⟨retired, s⟩ := p
  obtain ⟨retired', s'⟩ := q
  have hsame : s'.isCurrent h = s.isCurrent h := by rw [hcurrent, hcurrent, hs.running h.address]
  unfold retireOne
  dsimp only
  rw [hsame]
  split
  · refine ⟨?_, fun key => ?_⟩
    · rw [List.filter_append, List.filter_append, hs.retired]
    · change ((s'.active.erase h.address).find? key).filter _ =
        ((s.active.erase h.address).find? key).filter _
      rw [ActiveSet.find?_erase, ActiveSet.find?_erase]
      split
      · rfl
      · exact hs.running key
  · exact hs

/-- It makes no difference whether the endpoint left out is listed. -/
theorem RetireAlikeBut.fold (hs : RetireAlikeBut a p q) (finished : List Handle) :
    RetireAlikeBut a (finished.foldl retireOne p)
      ((finished.filter (·.id ≠ a)).foldl retireOne q) := by
  induction finished generalizing p q with
  | nil => exact hs
  | cons h rest ih =>
    rw [List.foldl_cons]
    by_cases hid : h.id = a
    · rw [List.filter_cons_of_neg (by simp [hid])]
      exact ih ((retireAlikeBut_retireOne p hid).symm.trans hs)
    · rw [List.filter_cons_of_pos (by simp [hid]), List.foldl_cons]
      exact ih (hs.both hid)

theorem takeFinished_alikeBut {c c' : Scene} (h : Scene.Beside a c c') :
    RetireAlikeBut a c.station.takeFinished c'.station.takeFinished := by
  have hstart : RetireAlikeBut a ([], { c.station with finished := [] })
      ([], { c'.station with finished := [] }) := ⟨rfl, h.running⟩
  have hleft := hstart.fold c.station.finished
  have hright := RetireAlikeBut.fold (a := a) (p := ([], { c'.station with finished := [] }))
      ⟨rfl, fun _ => rfl⟩ c'.station.finished
  rw [h.finished] at hright
  exact hleft.trans hright.symm

end Station

namespace LoneStation
open CanTransport.Station
variable {δ : Type} {w : Device δ} {x y : LoneStation δ} {a : EndpointId}

theorem writesIn_retire (hu : Unlocked x.scene.held) :
    writesIn (retire.run w.alone x).2.scene.events = writesIn x.scene.events := by
  obtain ⟨-, -, -, hevents⟩ := run_retire (w := w) hu
  rw [hevents, writesIn_append]
  refine (congrArg _ (List.filterMap_eq_nil_iff.mpr fun e he => ?_)).trans (List.append_nil _)
  obtain ⟨h, -, rfl⟩ := List.mem_map.mp he
  rfl

theorem beside_retire (hu : Unlocked x.scene.held) (h : Scene.Beside a x.scene y.scene) :
    Scene.AlikeBut a (retire.run w.alone x).2.scene (retire.run w.alone y).2.scene := by
  have hu' : Unlocked y.scene.held := h.held ▸ hu
  obtain ⟨-, hactive, hendpoint, hevents⟩ := run_retire (w := w) hu
  obtain ⟨-, hactive', hendpoint', hevents'⟩ := run_retire (w := w) hu'
  obtain ⟨hretired, hrunning⟩ : RetireAlikeBut a x.station.takeFinished y.station.takeFinished :=
    takeFinished_alikeBut h
  refine ⟨fun id hid => ?_, fun key => ?_, ?_, ?_⟩
  · have hlisted (l : List Handle) : id ∈ l.map (·.id) ↔ id ∈ (l.filter (·.id ≠ a)).map (·.id) := by
      constructor
      · intro hmem
        obtain ⟨g, hg, rfl⟩ := List.mem_map.mp hmem
        exact List.mem_map_of_mem (List.mem_filter.mpr ⟨hg, by simpa using hid⟩)
      · intro hmem
        obtain ⟨g, hg, rfl⟩ := List.mem_map.mp hmem
        exact List.mem_map_of_mem (List.mem_filter.mp hg).1
    have hsame : y.station.endpoint? id = x.station.endpoint? id := h.endpoint id hid
    refine (hendpoint' id).trans (Eq.trans ?_ (hendpoint id).symm)
    have hover : id ∈ y.station.takeFinished.1.map (·.id) ↔
        id ∈ x.station.takeFinished.1.map (·.id) := by
      rw [hlisted, hretired, ← hlisted]
    simp only [hsame, hover]
  · exact (congrArg (fun active : ActiveSet => (active.find? key).filter (·.id ≠ a)) hactive').trans
      ((hrunning key).trans
        (congrArg (fun active : ActiveSet => (active.find? key).filter (·.id ≠ a)) hactive).symm)
  · rw [writesIn_retire hu, writesIn_retire hu', h.writes]
  · have hreported (z : LoneStation δ) :
        (noticesIn (z.station.takeFinished.1.map fun h =>
          .told h.id (completion h (z.station.endpoint? h.id)))).filter (·.1 ≠ a) =
        (z.station.takeFinished.1.filter (·.id ≠ a)).map fun h =>
        (h.id, completion h (z.station.endpoint? h.id)) := by
      have hall : noticesIn (z.station.takeFinished.1.map fun h =>
          .told h.id (completion h (z.station.endpoint? h.id))) = z.station.takeFinished.1.map
            fun h => (h.id, completion h (z.station.endpoint? h.id)) := by
        rw [noticesIn, List.filterMap_map]
        exact congrFun
          (List.filterMap_eq_map
            (f := fun h : Handle => (h.id, completion h (z.station.endpoint? h.id)))) _
      rw [hall, List.filter_map]
      rfl
    rw [hevents, hevents', noticesIn_append, noticesIn_append, List.filter_append,
      List.filter_append, h.notices, hreported, hreported, hretired]
    refine congrArg _ (List.map_congr_left fun g hg => ?_)
    have hid : g.id ≠ a := by simpa using (List.mem_filter.mp hg).2
    rw [show y.station.endpoint? g.id = x.station.endpoint? g.id from h.endpoint g.id hid]

end LoneStation
end CanTransport
