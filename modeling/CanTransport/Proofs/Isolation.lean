import CanTransport.Proofs.Dialogue
import CanTransport.Proofs.Inbox
import CanTransport.Proofs.Stages

/-! # A frame reaches one conversation

A tick that finds a frame is compared with one that finds none. Up to the reading of the frame they
do the same, and from then on they differ in what becomes of one endpoint: of a conversation that
waits for the frame, or of the receiver that the frame opens.
-/
namespace CanTransport
open CanTransport.Action CanTransport.Station

namespace Endpoint
variable {r : Endpoint}

theorem step_awaiting (h : r.isAwaiting = true) (now : Micros) (frame : Option Frame)
    (budget : Budget) :
    ∃ next outcome, r.step now frame budget = (.rest next outcome, budget) := by
  have hbudget : (r.step now frame budget).2 = budget := (step_onward (.inr h)).1
  suffices hrest : ∃ next outcome, (r.step now frame budget).1 = .rest next outcome from
    hrest.imp fun next hrest => hrest.imp fun outcome hrest => Prod.ext hrest hbudget
  cases r with
  | sender s =>
    suffices hs : ∃ next outcome, s.step now frame = .rest next outcome by
      obtain ⟨next, outcome, hs⟩ := hs
      exact ⟨.sender next, outcome, congrArg (Move.map Endpoint.sender) hs⟩
    have does := s.step_does now frame
    generalize s.step now frame = move at does ⊢
    cases does with
    | offers running timely due sends =>
      rcases Sender.isAwaiting_iff.mp h with hp | hp <;> rcases sends.phase with hs | hs | hs <;>
        cases hp.symm.trans hs
    | closed | expires | fails | pauses | waits | resumes | postpones | overruns | stuck =>
      exact ⟨_, _, rfl⟩
  | receiver q =>
    suffices hq : ∃ next outcome, (q.step now frame budget).1 = .rest next outcome by
      obtain ⟨next, outcome, hq⟩ := hq
      exact ⟨.receiver next, outcome, congrArg (Move.map Endpoint.receiver) hq⟩
    have hphase : q.phase = .awaitConsecutive ∨ q.phase = .awaitFlowAck := by
      cases hp : q.phase <;> simp [isAwaiting, Receiver.isAwaiting, hp] at h ⊢
    have does := q.step_does now frame budget
    generalize q.step now frame budget = move at does ⊢
    cases does with
    | rejects running timely phase | offers running timely phase =>
      rcases hphase with hp | hp <;> cases hp.symm.trans phase
    | closed | expires | fails | single | first | holds | consumes | waits | stuck =>
      exact ⟨_, _, rfl⟩

end Endpoint

namespace LoneStation
variable {κ : Type} {port : Port κ} {x y z : LoneStation (List Frame × κ)} {a id : EndpointId}
  {h : Handle} {frame : Option Frame}

/-- Two runs of which one has affected an endpoint and nothing else. -/
structure Mirrors (a : EndpointId) (x y : LoneStation (List Frame × κ)) : Prop where
  held : y.scene.held = x.scene.held
  device : y.device = x.device
  station : ∃ endpoints finished, y.station = { x.station with endpoints, finished }
  endpoint : ∀ id, id ≠ a → y.station.endpoint? id = x.station.endpoint? id
  finished : y.station.finished.filter (·.id ≠ a) = x.station.finished.filter (·.id ≠ a)
  writes : writesIn y.scene.events = writesIn x.scene.events
  notices : (noticesIn y.scene.events).filter (·.1 ≠ a) =
    (noticesIn x.scene.events).filter (·.1 ≠ a)

theorem Mirrors.refl (a : EndpointId) (x : LoneStation (List Frame × κ)) : Mirrors a x x :=
  ⟨rfl, rfl, ⟨_, _, rfl⟩, fun _ _ => rfl, rfl, rfl, rfl⟩

theorem Mirrors.budget (h : Mirrors a x y) : y.station.budget = x.station.budget := by
  obtain ⟨_, _, hs⟩ := h.station
  rw [hs]

theorem Mirrors.symm (h : Mirrors a x y) : Mirrors a y x := by
  obtain ⟨endpoints, finished, hs⟩ := h.station
  exact ⟨h.held.symm, h.device.symm, ⟨x.station.endpoints, x.station.finished, by rw [hs]⟩,
    fun id hid => (h.endpoint id hid).symm, h.finished.symm, h.writes.symm, h.notices.symm⟩

theorem Mirrors.trans (h : Mirrors a x y) (h' : Mirrors a y z) : Mirrors a x z := by
  obtain ⟨endpoints, finished, hs⟩ := h.station
  obtain ⟨endpoints', finished', hs'⟩ := h'.station
  exact ⟨h'.held.trans h.held, h'.device.trans h.device, ⟨endpoints', finished', by rw [hs', hs]⟩,
    fun id hid => (h'.endpoint id hid).trans (h.endpoint id hid), h'.finished.trans h.finished,
    h'.writes.trans h.writes, h'.notices.trans h.notices⟩

theorem Mirrors.beside (h : Mirrors a x y) : Scene.Beside a x.scene y.scene := by
  obtain ⟨endpoints, finished, hs⟩ := h.station
  refine ⟨h.held, h.endpoint, fun key => ?_, h.finished, by rw [h.writes], h.notices⟩
  change (y.station.active.find? key).filter _ = (x.station.active.find? key).filter _
  rw [hs]

theorem Mirrors.put (h : Mirrors a x y) (budget : Budget) (id : EndpointId) (next : Endpoint) :
    Mirrors a (x.access fun s => (s.setBudget budget).modifyEndpoint id fun _ => next)
      (y.access fun s => (s.setBudget budget).modifyEndpoint id fun _ => next) := by
  obtain ⟨endpoints, finished, hs⟩ := h.station
  refine ⟨h.held, h.device,
    ⟨((y.station.setBudget budget).modifyEndpoint id fun _ => next).endpoints, finished, ?_⟩,
    fun i hi => ?_, h.finished, h.writes, h.notices⟩
  · change (y.station.setBudget budget).modifyEndpoint id (fun _ => next) = _
    rw [hs]
    rfl
  · change ((y.station.setBudget budget).modifyEndpoint id fun _ => next).endpoint? i =
      ((x.station.setBudget budget).modifyEndpoint id fun _ => next).endpoint? i
    rw [endpoint?_modifyEndpoint, endpoint?_modifyEndpoint]
    exact congrArg _ (h.endpoint i hi)

theorem Mirrors.note (h : Mirrors a x y) (event : Event) :
    Mirrors a (x.note event) (y.note event) where
  held := h.held
  device := h.device
  station := h.station
  endpoint := h.endpoint
  finished := h.finished
  writes := by
    change writesIn (y.scene.events ++ [event]) = writesIn (x.scene.events ++ [event])
    rw [writesIn_append, writesIn_append, h.writes]
  notices := by
    change (noticesIn (y.scene.events ++ [event])).filter _ =
      (noticesIn (x.scene.events ++ [event])).filter _
    rw [noticesIn_append, noticesIn_append, List.filter_append, List.filter_append, h.notices]

theorem Mirrors.offer (h : Mirrors a x y) (writer : EndpointId) (address : Address) (f : Frame) :
    (y.offer port.device writer address f).1 = (x.offer port.device writer address f).1 ∧
      Mirrors a (x.offer port.device writer address f).2
        (y.offer port.device writer address f).2 := by
  unfold LoneStation.offer
  rw [h.device]
  refine ⟨rfl, ?_⟩
  have hasked : Mirrors a (x.ask (port.device.write · f)).2 (y.ask (port.device.write · f)).2 :=
    ⟨h.held, congrArg (fun d => (port.device.write d f).2) h.device, h.station, h.endpoint,
      h.finished, h.writes, h.notices⟩
  split
  · have hnoted := hasked.note (.accepted writer f)
    obtain ⟨endpoints, finished, hs⟩ := h.station
    refine ⟨hnoted.held, hnoted.device, ⟨endpoints, finished, ?_⟩, h.endpoint, h.finished,
      hnoted.writes, hnoted.notices⟩
    change { y.station with outbox := y.station.outbox.push address writer } = _
    rw [hs]
    rfl
  · exact hasked

theorem Mirrors.step (hm : Mirrors a x y) (port : Port κ) (hu : Unlocked x.scene.held)
    (hid : id ≠ a) (frame : Option Frame) :
    ((stepEndpoint id frame).run port.device.alone y).1 =
      ((stepEndpoint id frame).run port.device.alone x).1 ∧
      Mirrors a ((stepEndpoint id frame).run port.device.alone x).2
        ((stepEndpoint id frame).run port.device.alone y).2 := by
  have hu' : Unlocked y.scene.held := hm.held ▸ hu
  have hl : .endpoint id ∉ x.scene.held := hu.free (by simp)
  have hl' : .endpoint id ∉ y.scene.held := hu'.free (by simp)
  have hbudget := hm.budget
  have hclock : (port.device.now y.device).1 = (port.device.now x.device).1 := by rw [hm.device]
  cases hr : x.station.endpoint? id with
  | none =>
    rw [run_step_none hl hr, run_step_none hl' ((hm.endpoint id hid).trans hr)]
    exact ⟨rfl, hm⟩
  | some r =>
    have hr' : y.station.endpoint? id = some r := (hm.endpoint id hid).trans hr
    cases hmove : r.step (port.device.now x.device).1 frame x.station.budget with
    | mk move budget =>
      have hmove' : r.step (port.device.now y.device).1 frame y.station.budget =
          (move, budget) := by rw [hclock, hbudget, hmove]
      cases move with
      | rest next outcome =>
        rw [run_step_rest hl hr hmove, run_step_rest hl' hr' hmove']
        exact ⟨rfl, hm.put budget id next⟩
      | write f next =>
        have hpaid : Mirrors a (x.access (·.setBudget budget)) (y.access (·.setBudget budget)) := by
          obtain ⟨endpoints, finished, hs⟩ := hm.station
          refine ⟨hm.held, hm.device, ⟨endpoints, finished, ?_⟩, hm.endpoint, hm.finished,
            hm.writes, hm.notices⟩
          change y.station.setBudget budget = _
          rw [hs]
          rfl
        obtain ⟨haccepted, hoffered⟩ := hpaid.offer id r.address f
        generalize hx : (x.access (·.setBudget budget)).offer port.device id r.address f =
          offered at haccepted hoffered
        generalize hy : (y.access (·.setBudget budget)).offer port.device id r.address f =
          offered' at haccepted hoffered
        obtain ⟨accepted, x₁⟩ := offered
        obtain ⟨accepted', y₁⟩ := offered'
        obtain rfl : accepted' = accepted := haccepted
        rw [run_step_write hl (hu.free (by simp)) hr hmove hx,
          run_step_write hl' (hu'.free (by simp)) hr' hmove' hy]
        have hafter : (port.device.now y₁.device).1 = (port.device.now x₁.device).1 := by
          rw [hoffered.device]
        have hbudget₁ : y₁.station.budget = x₁.station.budget := hoffered.budget
        rw [hafter]
        have hput :=
          hoffered.put x₁.station.budget id (next accepted' (port.device.now x₁.device).1).1
        have hsame : y₁.access (fun s => (s.setBudget x₁.station.budget).modifyEndpoint id fun _ =>
            (next accepted' (port.device.now x₁.device).1).1) =
            y₁.access (·.modifyEndpoint id fun _ =>
              (next accepted' (port.device.now x₁.device).1).1) :=
          access_congr _ (by rw [← hbudget₁]; rfl)
        rw [hsame] at hput
        exact ⟨rfl, hput⟩

theorem Mirrors.passed (hm : Mirrors a x y) (h : Handle) (outcome : StepOutcome) :
    Mirrors a (x.passed h outcome) (y.passed h outcome) := by
  cases outcome with
  | inProgress => exact hm
  | firstFrame length => exact hm.note _
  | finished result =>
    obtain ⟨endpoints, finished, hs⟩ := hm.station
    refine ⟨hm.held, hm.device, ⟨endpoints, finished ++ [h], ?_⟩, hm.endpoint, ?_,
      hm.writes, hm.notices⟩
    · change y.station.markFinished h = _
      rw [hs]
      rfl
    · change (y.station.finished ++ [h]).filter _ = (x.station.finished ++ [h]).filter _
      rw [List.filter_append, List.filter_append, hm.finished]

theorem Mirrors.turn (hm : Mirrors a x y) (hu : Unlocked x.scene.held) (hid : h.id ≠ a)
    (frame : Option Frame) :
    Mirrors a ((turn h frame).run port.device.alone x).2
      ((turn h frame).run port.device.alone y).2 := by
  obtain ⟨houtcome, hstep⟩ := hm.step port hu hid frame
  rw [run_turn hu, run_turn (hm.held ▸ hu), houtcome]
  exact hstep.passed h _

theorem Mirrors.dispatch {handles : List Handle} (hm : Mirrors a x y) (hu : Unlocked x.scene.held)
    (tickAt : Micros) (hid : ∀ h ∈ handles, h.id ≠ a) :
    ((dispatch tickAt none handles).run port.device.alone x).1 = none ∧
      ((dispatch tickAt none handles).run port.device.alone y).1 = none ∧
      Mirrors a ((dispatch tickAt none handles).run port.device.alone x).2
        ((dispatch tickAt none handles).run port.device.alone y).2 := by
  induction handles generalizing x y with
  | nil => exact ⟨rfl, rfl, hm⟩
  | cons h rest ih =>
    have hne := hid h List.mem_cons_self
    have hone : ∃ x₁ y₁, (dispatchOne tickAt none h).run port.device.alone x = (none, x₁) ∧
        (dispatchOne tickAt none h).run port.device.alone y = (none, y₁) ∧ Mirrors a x₁ y₁ := by
      rw [run_dispatchOne hu, run_dispatchOne (hm.held ▸ hu), show x.claims none h = false from rfl,
        show y.claims none h = false from rfl, if_neg Bool.false_ne_true, if_neg Bool.false_ne_true,
            hm.endpoint h.id hne]
      cases (x.station.endpoint? h.id).any (·.isDue tickAt) with
      | true => exact ⟨_, _, rfl, rfl, hm.turn hu hne none⟩
      | false => exact ⟨_, _, rfl, rfl, hm⟩
    obtain ⟨x₁, y₁, hx, hy, hm₁⟩ := hone
    have hheld : x₁.scene.held = x.scene.held := by
      have hturned := (turned_dispatchOne (w := port.device) hu tickAt none h).held
      rwa [hx] at hturned
    simp only [Station.dispatch, Program.bind_eq, Program.run_bind, hx, hy]
    exact ih hm₁ (hheld ▸ hu) fun g hg => hid g (List.mem_cons_of_mem _ hg)

/-- The turn of one that waits for a frame affects nothing else. -/
theorem mirrors_turn (hu : Unlocked x.scene.held)
    (hw : (x.station.endpoint? h.id).any (·.isAwaiting) = true) (frame : Option Frame) :
    Mirrors h.id x ((turn h frame).run port.device.alone x).2 := by
  obtain ⟨r, hr, hawaits⟩ := Option.any_eq_true _ _ |>.mp hw
  obtain ⟨next, outcome, hm⟩ :=
    r.step_awaiting hawaits (port.device.now x.device).1 frame x.station.budget
  rw [run_turn hu, run_step_rest (hu.free (by simp)) hr hm]
  have hput := Scene.Turned.put x.scene h.id x.station.budget next
  have hpassed := hput.trans (.passed _ h outcome)
  cases outcome with
  | inProgress =>
    exact ⟨hpassed.held, rfl, ⟨_, _, rfl⟩, hpassed.endpoint, hpassed.finished, rfl, hpassed.notices⟩
  | finished result =>
    exact ⟨hpassed.held, rfl, ⟨_, _, rfl⟩, hpassed.endpoint, hpassed.finished, rfl, hpassed.notices⟩
  | firstFrame length =>
    exact ⟨hpassed.held, rfl, ⟨_, _, rfl⟩, hpassed.endpoint, hpassed.finished,
      writesIn_append_of_none _ rfl, hpassed.notices⟩

/-- Either nobody claims the frame, and then its coming makes no difference, or one conversation
does. -/
theorem dispatch_parts {handles : List Handle} (port : Port κ) (hu : Unlocked x.scene.held)
    (hn : (handles.map (·.id)).Nodup) (tickAt : Micros) (f : Frame) :
    let quiet := (dispatch tickAt none handles).run port.device.alone x
    let loud := (dispatch tickAt (some f) handles).run port.device.alone x
    quiet.1 = none ∧
    (loud = (some f, quiet.2) ∨ loud.1 = none ∧ ∃ h ∈ handles, h.accepts f.id = true ∧
      (x.station.endpoint? h.id).any (·.isAwaiting) = true ∧ Mirrors h.id quiet.2 loud.2) := by
  induction handles generalizing x with
  | nil => exact ⟨rfl, .inl rfl⟩
  | cons h rest ih =>
    obtain ⟨hfresh, hn⟩ := List.nodup_cons.mp hn
    have hne : ∀ g ∈ rest, g.id ≠ h.id := fun g hg he => hfresh (List.mem_map.mpr ⟨g, hg, he⟩)
    have hquiet := run_dispatchOne (w := port.device) hu tickAt none h
    have hloud := run_dispatchOne (w := port.device) hu tickAt (some f) h
    have hturned := turned_dispatchOne (w := port.device) hu tickAt none h
    rw [show x.claims none h = false from rfl, if_neg Bool.false_ne_true] at hquiet
    -- as long as nobody claims the frame, both rounds give the same turns
    obtain ⟨x₁, hx, hloudly⟩ : ∃ x₁, (dispatchOne tickAt none h).run port.device.alone x =
        (none, x₁) ∧
        (if (x.station.endpoint? h.id).any (·.isDue tickAt)
          then (some f, ((turn h none).run port.device.alone x).2)
          else (some f, x)) = (some f, x₁) := by
      rw [hquiet]
      split <;> exact ⟨_, rfl, rfl⟩
    rw [hx] at hturned hquiet
    rw [hloudly] at hloud
    have hu₁ : Unlocked x₁.scene.held := hturned.held ▸ hu
    simp only [Station.dispatch, Program.bind_eq, Program.run_bind, hx, hloud]
    cases hclaims : x.claims (some f) h with
    | true =>
      obtain ⟨haccepts, hawaits⟩ : h.accepts f.id = true ∧
          (x.station.endpoint? h.id).any (·.isAwaiting) = true := by
        simpa [claims] using hclaims
      have hmirrors : Mirrors h.id x₁ ((turn h (some f)).run port.device.alone x).2 := by
        refine Mirrors.trans (Mirrors.symm ?_) (mirrors_turn hu hawaits (some f))
        split at hquiet
        · cases hquiet
          exact mirrors_turn hu hawaits none
        · cases hquiet
          exact .refl _ _
      obtain ⟨hnone, hnone', hrest⟩ := hmirrors.dispatch hu₁ tickAt hne
      rw [if_pos rfl]
      exact ⟨hnone, .inr ⟨hnone', h, List.mem_cons_self, haccepts, hawaits, hrest⟩⟩
    | false =>
      rw [if_neg Bool.false_ne_true]
      obtain ⟨hnone, hrest⟩ := ih hu₁ hn
      refine ⟨hnone, hrest.imp_right ?_⟩
      rintro ⟨hnone', g, hg, haccepts, hawaits, hmirrors⟩
      have hsame : x₁.station.endpoint? g.id = x.station.endpoint? g.id :=
        hturned.endpoint g.id (hne g hg)
      exact ⟨hnone', g, List.mem_cons_of_mem _ hg, haccepts, hsame ▸ hawaits, hmirrors⟩

theorem dispatch_station (port : Port κ) (hu : Unlocked x.scene.held) (tickAt : Micros)
    (frame : Option Frame) (handles : List Handle) :
    ((dispatch tickAt frame handles).run port.device.alone x).2.scene.held = x.scene.held ∧
      ∃ endpoints budget outbox finished,
        ((dispatch tickAt frame handles).run port.device.alone x).2.station =
        { x.station with endpoints, budget, outbox, finished } := by
  induction handles generalizing x frame with
  | nil => exact ⟨rfl, _, _, _, _, rfl⟩
  | cons h rest ih =>
    have hturned := turned_dispatchOne (w := port.device) hu tickAt frame h
    simp only [Station.dispatch, Program.bind_eq, Program.run_bind]
    generalize (dispatchOne tickAt frame h).run port.device.alone x = one at hturned
    obtain ⟨hheld, endpoints, budget, outbox, finished, hs⟩ :=
      ih (x := one.2) (hturned.held ▸ hu) one.1
    obtain ⟨endpoints', budget', outbox', finished', hs'⟩ := hturned.station
    exact ⟨hheld.trans hturned.held, endpoints, budget, outbox, finished,
      hs.trans (by rw [show one.2.station = one.2.scene.station from rfl, hs']; rfl)⟩

theorem run_openReceiver (port : Port κ) (hu : Unlocked x.scene.held) (f : Frame)
    (settings : Settings) :
    ((openReceiver f settings).run port.device.alone x).2 = x ∨
      x.station.active.find? f.id = none ∧ ∃ rest,
        Receiver.create f.id settings.blockSize settings.separation x.station.budget =
          .ok (.initial f.id settings.blockSize settings.separation, rest) ∧
        ((openReceiver f settings).run port.device.alone x).2 =
        ((turn (x.station.nextReceiver f.id) (some f)).run port.device.alone
          (x.access (·.receiving f.id settings rest))).2 := by
  have hopen : (withLock .conversations (modifyGet (·.openReception f.id settings))).run
      port.device.alone x = (.ok (x.station.openReception f.id settings).1, x.access fun s =>
        (s.openReception f.id settings).2) := by
    rw [Device.alone, run_withLock _ _ x _ (hu.free (by simp)), run_modifyGet]
    exact congrArg (Prod.mk _)
      (unlock_lock (x.access fun s => (s.openReception f.id settings).2) .conversations)
  unfold openReceiver
  rw [Program.bind_eq, Program.run_bind, hopen]
  cases ho : x.station.openReception f.id settings with
  | mk opened s =>
    cases opened with
    | none =>
      refine .inl (?_ : x.access (fun s => (s.openReception f.id settings).2) = x)
      have hscene : x.scene.access (fun s => (s.openReception f.id settings).2) = x.scene :=
        access_eq_self ((congrArg Prod.snd ho).trans (openReception_none ho))
      exact congrArg (fun c => ({ x with scene := c } : LoneStation (List Frame × κ))) hscene
    | some h =>
      obtain ⟨receiver, rest, hq, hcreate, rfl, rfl⟩ := openReception_some ho
      obtain ⟨rfl, -⟩ := Receiver.create_ok hcreate
      refine .inr ⟨hq, rest, hcreate, ?_⟩
      have hsame : x.access (fun s => (s.openReception f.id settings).2) =
          x.access (·.receiving f.id settings rest) :=
        access_congr _ ((congrArg Prod.snd ho).trans rfl)
      rw [hsame]
      rfl

theorem run_afterReading (hu : Unlocked x.scene.held) (settings : Settings) (frame : Option Frame) :
    (afterReading settings frame).run port.device.alone x =
      let turns :=
        (dispatch (port.now x.device.2) frame x.station.active.handles).run port.device.alone x
      retire.run port.device.alone
        (turns.1.elim turns.2 fun frame =>
          ((openReceiver frame settings).run port.device.alone turns.2).2) := by
  unfold afterReading
  rw [Program.bind_eq, Program.run_bind, run_look (hu.free (by simp))]
  refine (Program.run_bind port.device.alone
    (dispatch (port.now x.device.2) frame x.station.active.handles) _ x).trans ?_
  dsimp only
  cases ((dispatch (port.now x.device.2) frame x.station.active.handles).run port.device.alone x).1
    with
  | none => rfl
  | some frame => exact Program.run_bind _ _ _ _

theorem beside_receiving (hn : x.station.Numbered) (f : Frame) (settings : Settings) (rest : Budget)
    (hq : x.station.active.find? f.id = none) :
    Scene.Beside x.station.fresh x.scene (x.access (·.receiving f.id settings rest)).scene := by
  refine ⟨rfl, fun id hid => ?_, fun key => ?_, rfl, rfl, rfl⟩
  · exact (endpoint?_adopt hn _ rest id).trans (if_neg hid)
  · change ((x.station.active.insert f.id (x.station.nextReceiver f.id)).find? key).filter _ =
      (x.station.active.find? key).filter _
    rw [ActiveSet.find?_insert]
    split
    · next hkey =>
      rw [hkey, hq, Option.filter_some, if_neg (by simp [nextReceiver])]
      rfl
    · rfl

end LoneStation

/-- Whom a frame reaches: nobody, one that runs and waits for it, or a receiver that it opens. `m`
is the station that looks for the frame, and the scenes are those after a tick without it and after
a tick with it. -/
inductive Reached (f : Frame) (m : Station) (quiet loud : Scene) : Prop
  | nobody (same : loud = quiet)
  | awaiting {h : Handle} (runs : h ∈ m.active.handles) (accepts : h.accepts f.id = true)
    (awaits : (m.endpoint? h.id).any (·.isAwaiting) = true)
    (others : Scene.AlikeBut h.id quiet loud)
    (writes : writesIn loud.events = writesIn quiet.events)
  | opened (idle : m.active.find? f.id = none) (absent : quiet.station.endpoint? m.fresh = none)
    (receiver : ∀ r, loud.station.endpoint? m.fresh = some r →
      r.handle m.fresh = m.nextReceiver f.id)
    (others : Scene.AlikeBut m.fresh quiet loud)

namespace LoneStation
variable {κ : Type} {port : Port κ} {x m d : LoneStation (List Frame × κ)}

/-- A conversation claims the frame. -/
theorem reached_awaiting {f : Frame} {h : Handle} {e : LoneStation (List Frame × κ)}
    (hu : Unlocked d.scene.held) (hruns : h ∈ m.station.active.handles)
    (haccepts : h.accepts f.id = true)
    (hawaits : (m.station.endpoint? h.id).any (·.isAwaiting) = true) (hm : Mirrors h.id d e) :
    Reached f m.station (retire.run port.device.alone d).2.scene
      (retire.run port.device.alone e).2.scene := by
  refine .awaiting hruns haccepts hawaits (beside_retire hu hm.beside) ?_
  rw [writesIn_retire hu, writesIn_retire (hm.held ▸ hu), hm.writes]

/-- A receiver is opened. -/
theorem reached_opened {f : Frame} {settings : Settings} {rest : Budget} (hg : Fits {} d.scene)
    (hu : Unlocked d.scene.held) (hactive : d.station.active = m.station.active)
    (hfresh : d.station.fresh = m.station.fresh) (hq : d.station.active.find? f.id = none)
    (hp : Proceeds {} d.scene (d.access (·.receiving f.id settings rest)).scene) :
    Reached f m.station (retire.run port.device.alone d).2.scene (retire.run port.device.alone
      ((turn (d.station.nextReceiver f.id) (some f)).run port.device.alone
        (d.access (·.receiving f.id settings rest))).2).2.scene := by
  have hn : d.station.Numbered := hg.orderly.numbered
  have hturned : Scene.Turned d.station.fresh (d.access (·.receiving f.id settings rest)).scene
      ((turn (d.station.nextReceiver f.id) (some f)).run port.device.alone
        (d.access (·.receiving f.id settings rest))).2.scene :=
    turned_turn (h := d.station.nextReceiver f.id) hu
  have hgenuine : (d.access (·.receiving f.id settings rest)).station.Genuine
      (d.station.nextReceiver f.id) :=
    (Genuine.adopt hn (.receiver (.initial f.id settings.blockSize settings.separation))
      rest).descend (.of_eq rfl rfl)
  have hafter : Proceeds {} (d.access (·.receiving f.id settings rest)).scene
      ((turn (d.station.nextReceiver f.id) (some f)).run port.device.alone
        (d.access (·.receiving f.id settings rest))).2.scene :=
    stepAndPassOn_proceeds (episode_sound 0) (hg.proceed hp) hgenuine rfl rfl (ends_alone _ _)
  have hkept := hgenuine.descend (hafter.path.descends (hg.proceed hp).orderly)
  have hbeside := (beside_receiving hn f settings rest hq).trans hturned.toBeside
  generalize ((turn (d.station.nextReceiver f.id) (some f)).run port.device.alone
    (d.access (·.receiving f.id settings rest))).2 = e
    at hkept hbeside ⊢
  obtain ⟨-, -, hquiet, -⟩ := run_retire (w := port.device) hu
  obtain ⟨-, -, hloud, -⟩ := run_retire (w := port.device) (x := e) (hbeside.held ▸ hu)
  have hnext : d.station.nextReceiver f.id = m.station.nextReceiver f.id := by
    rw [nextReceiver, nextReceiver, hfresh]
  refine .opened (hactive ▸ hq) ?_ (fun r hr => ?_) (hfresh ▸ beside_retire hu hbeside)
  · rw [← hfresh]
    refine (hquiet d.station.fresh).trans ?_
    split
    · rfl
    · exact Option.eq_none_iff_forall_ne_some.mpr fun r hr => Nat.lt_irrefl _ (hn.lt hr)
  · rw [← hfresh] at hr ⊢
    have hr := (hloud d.station.fresh).symm.trans hr
    split at hr
    · cases hr
    · rw [← hnext]
      exact hkept.2 r hr

/-- Once the frame has been read, it reaches one conversation or none. -/
theorem afterReading_reaches {settings : Settings} (hm : m.scene.InOrder)
    (hheld : m.scene.held = [.gate]) (f : Frame) :
    Reached f m.station ((afterReading settings none).run port.device.alone m).2.scene
      ((afterReading settings (some f)).run port.device.alone m).2.scene := by
  have hu : Unlocked m.scene.held := fun l hl => List.mem_singleton.mp (hheld ▸ hl)
  have hfits : Fits {} m.scene :=
    ⟨hm.orderly, fun id hid => absurd hid List.not_mem_nil, .inr ⟨rfl, rfl⟩⟩
  have hnodup : (m.station.active.handles.map (·.id)).Nodup :=
    ((List.sublist_append_left _ _).map _).nodup hm.ledger.custody.nodup
  have hgenuine : ∀ h ∈ m.station.active.handles, m.station.Genuine h := fun h hmem =>
    hfits.orderly.genuine h (Stage.mem_handles.mpr (.inr (.inl hmem)))
  obtain ⟨hnone, hparts⟩ := dispatch_parts port hu hnodup (port.now m.device.2) f
  obtain ⟨hheldd, endpoints, budget, outbox, finished, hs⟩ :=
    dispatch_station port hu (port.now m.device.2) none m.station.active.handles
  have hproceeds : Proceeds {} m.scene
      ((dispatch (port.now m.device.2) none m.station.active.handles).run
        port.device.alone m).2.scene :=
    dispatch_proceeds (episode_sound 0) hfits hgenuine rfl rfl (ends_alone _ m)
  rw [run_afterReading hu, run_afterReading hu]
  generalize (dispatch (port.now m.device.2) none m.station.active.handles).run
    port.device.alone m = quiet at *
  generalize (dispatch (port.now m.device.2) (some f) m.station.active.handles).run
    port.device.alone m = loud at *
  obtain ⟨left, d⟩ := quiet
  obtain rfl : left = none := hnone
  have hud : Unlocked d.scene.held := hheldd ▸ hu
  rcases hparts with rfl | ⟨hnone', h, hruns, haccepts, hawaits, hmirrors⟩
  · have hs : d.station = { m.station with endpoints, budget, outbox, finished } := hs
    dsimp only [Option.elim]
    rcases run_openReceiver port hud f settings with hsame | ⟨hq, rest, hcreated, hopened⟩
    · rw [hsame]
      exact .nobody rfl
    · rw [hopened]
      have hg := hfits.proceed hproceeds
      exact reached_opened hg hud (by rw [hs])
        (by rw [hs]) hq (.single (.openReception hq hcreated rfl rfl) rfl)
  · dsimp only
    rw [hnone']
    exact reached_awaiting hud hruns haccepts hawaits hmirrors

theorem course_reaches {settings : Settings} (hx : x.scene.InOrder) (hheld : x.scene.held = [.gate])
    (f : Frame) :
    Reached f (prelude.run port.device.alone x).2.station
      ((course settings).run port.device.alone (x.withInbox [])).2.scene
      ((course settings).run port.device.alone (x.withInbox [f])).2.scene := by
  have hfits : Fits {} x.scene :=
    ⟨hx.orderly, fun id hid => absurd hid List.not_mem_nil, .inr ⟨rfl, rfl⟩⟩
  obtain ⟨_, c₁, hsettle, hstart⟩ := ends_bind.mp (ends_alone (w := port.device) prelude x)
  have p := settle_proceeds (episode_sound 0) hfits hsettle
  have p := p.trans (startWaiting_proceeds (hfits.proceed p) hstart)
  rw [run_course, run_course]
  generalize (prelude.run port.device.alone x).2 = m at p ⊢
  have hm : (m.withInbox []).scene.InOrder := p.path.inOrder hx
  cases hadmits : settings.admits f with
  | false =>
    rw [show ([f].head?.filter settings.admits) = none by simp [hadmits]]
    exact .nobody rfl
  | true =>
    rw [show ([f].head?.filter settings.admits) = some f by simp [hadmits]]
    exact afterReading_reaches hm (p.held.trans hheld) f

end LoneStation

theorem Reached.unlock {f : Frame} {m : Station} {quiet loud : Scene} (h : Reached f m quiet loud)
    (lock : Lock) :
    Reached f m (quiet.unlock lock) (loud.unlock lock) := by
  cases h with
  | nobody same => exact .nobody (by rw [same])
  | awaiting runs accepts awaits others writes =>
    exact .awaiting runs accepts awaits ⟨others.endpoint, others.running, others.writes,
      others.notices⟩ writes
  | opened idle absent receiver others =>
    exact .opened idle absent receiver
      ⟨others.endpoint, others.running, others.writes, others.notices⟩

namespace Station
variable {κ : Type} {config : Config} {c : Scene}

/-- A tick with a frame in the inbox and the same tick without it differ in what becomes of one
endpoint, if at all: of a conversation that accepts the frame and waits for it, or of the receiver
that the frame opens. -/
theorem frame_reaches_one (hc : Reaches config c) (port : Port κ) (k : κ)
    (f : Frame) {p : Action Unit} (hp : p = tickIfDue ∨ p = pacedTick) :
    let quiet := (p.run port.device.alone { scene := c, device := ([], k) }).2.scene
    let loud := (p.run port.device.alone { scene := c, device := ([f], k) }).2.scene
    LoneStation.looking port.device p { scene := c, device := ([], k) } = none ∧ loud = quiet ∨
      ∃ m, LoneStation.looking port.device p { scene := c, device := ([], k) } = some m ∧
        Reached f m.station quiet loud := by
  have hfree : c.held = [] := hc.free
  let x : LoneStation (List Frame × κ) := { scene := c, device := ([], k) }
  have hbegins : LoneStation.GivesUp port p x ∨ LoneStation.GoesOn port p x := by
    rcases hp with rfl | rfl
    · exact LoneStation.tickIfDue_begins hfree
    · exact .inr (LoneStation.pacedTick_goesOn hfree)
  change LoneStation.looking port.device p (x.withInbox []) = none ∧
      (p.run port.device.alone (x.withInbox [f])).2.scene =
      (p.run port.device.alone (x.withInbox [])).2.scene ∨
    ∃ m, LoneStation.looking port.device p (x.withInbox []) = some m ∧ Reached f m.station
      (p.run port.device.alone (x.withInbox [])).2.scene
      (p.run port.device.alone (x.withInbox [f])).2.scene
  rcases hbegins with hnot | hbegins
  · refine .inl ⟨(hnot []).2, ?_⟩
    rw [(hnot [f]).1, (hnot []).1]
    rfl
  · obtain ⟨hquiet, hlooking⟩ := hbegins []
    obtain ⟨hloud, -⟩ := hbegins [f]
    have hheld : (LoneStation.begun port x).scene.held = [.gate] := congrArg (Lock.gate :: ·) hfree
    have hu (inbox : List Frame) :
        Unlocked ((LoneStation.begun port x).withInbox inbox).scene.held := fun l hl =>
      List.mem_singleton.mp (hheld ▸ hl)
    have hx : (LoneStation.begun port x).scene.InOrder :=
      ((Path.single (.locks (.gate :: c.held))).trans
        (stamp_proceeds {} _ (port.now k)).path).inOrder hc.inOrder
    refine .inr ⟨(prelude.run port.device.alone (LoneStation.begun port x)).2.withInbox [], ?_, ?_⟩
    · rw [hlooking, LoneStation.looking_tick (hu []), LoneStation.run_withInbox blind_prelude]
    · rw [hquiet, hloud, LoneStation.run_tick (hu []), LoneStation.run_tick (hu [f])]
      exact (LoneStation.course_reaches hx hheld f).unlock .gate

def firstFrameOut : Scene :=
  [Call.request 0x10 .physical ((List.range 20).map UInt8.ofNat) .diagnostics, .pacedTick].foldl
    (fun c call => call.perform c)
    { station := { settings := { source := 0xF1 }, budget := .ofBytes (64 * 1024) } }

theorem reaches_firstFrameOut : Reaches { source := 0xF1 } firstFrameOut := reaches_perform rfl _

def confirming : Port Bool where
  now _ := 0
  isActive _ := true
  write unheard _ := (true, unheard)
  outcome unheard := (if unheard then some .success else none, false)

def clearance : Frame :=
  Pdu.flowControl (Address.ofParts .physical 0x10 0xF1).reversed .continueToSend 0 .zero

theorem frame_reaches_one_clearance :
    let quiet :=
      (pacedTick.run confirming.device.alone
        { scene := firstFrameOut, device := ([], true) }).2.scene
    let loud := (pacedTick.run confirming.device.alone
        { scene := firstFrameOut, device := ([clearance], true) }).2.scene
    (∃ m : LoneStation (List Frame × Bool), Reached clearance m.station quiet loud) ∧
      (quiet.station.endpoint? 0).map (·.isAwaiting) = some true ∧
        (loud.station.endpoint? 0).map (·.isAwaiting) = some false := by
  refine ⟨?_, rfl, rfl⟩
  rcases frame_reaches_one reaches_firstFrameOut confirming true clearance
    (.inr rfl) with ⟨hnone, -⟩ | ⟨m, -, hm⟩
  · have hlooks :
        (LoneStation.looking confirming.device pacedTick
          { scene := firstFrameOut, device := ([], true) }).isSome = true := rfl
    rw [hnone] at hlooks
    cases hlooks
  · exact ⟨m, hm⟩

end Station

end CanTransport
