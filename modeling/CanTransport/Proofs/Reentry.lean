import CanTransport.Proofs.Callbacks
import CanTransport.Proofs.Entries

/-! # A station that is called from within never waits for itself

While a tick tells the listener that a message has begun, it holds no lock but its own. While it
reports an end it also holds that of the endpoint, which by then is neither running nor waiting and
is let go of by the outbox, so nothing that the listener calls asks for it.
-/
namespace CanTransport.Station
open CanTransport.Action

section Ticks
variable {δ μ α : Type} {w : Device δ} {l : Listener μ} {depth : Nat}
  {x : LoneStation (Company δ μ)}

theorem unlocked_gate : Unlocked [.gate] := fun _ h => List.mem_singleton.mp h

theorem ends_run_react (p : Action α) (x : LoneStation (Company δ μ)) :
    p.Ends (Episode depth) x.scene (p.run (answering w l depth) x).1
      (p.run (answering w l depth) x).2.scene :=
  LoneStation.ends_answer (episode_refl depth)
    (fun source notice x => episode_react depth source notice x) p x

theorem leaves_minding {p : Action α} (hp : p.Minds (· = [.gate]) [.gate])
    (hheld : x.scene.held = [.gate]) :
    Leaves (fun _ => True) [.gate] x (p.run (answering w l depth) x).2 := by
  refine (leaves_run hp hheld trivial fun source notice y hy _ => ?_).1
  have h : Leaves (Apart [.gate]) [.gate] y (l.react w depth source notice y) :=
    leaves_react List.mem_cons_self unlocked_gate.clear hy (unlocked_gate.apart _) depth source
      notice
  exact ⟨h.toUntroubled, hy ▸ h.held, trivial⟩

theorem leaves_reportEnd {h : Handle} (hheld : x.scene.held = [.gate])
    (ha : x.station.Apart [.endpoint h.id, .gate]) :
    Leaves (Apart [.endpoint h.id, .gate])
      [.gate] x ((reportEnd h).run (answering w l depth) x).2 := by
  have hp : (reportEnd h).Heeds (Apart [.endpoint h.id, .gate]) (· = [.endpoint h.id, .gate])
      [.gate] (fun _ => True) [.gate] :=
    reportEnd_heeds h (unlocked_gate.free nofun) rfl
  refine (leaves_run hp hheld ha fun source notice y hy ha => ?_).1
  have hreact := leaves_react (w := w) (l := l) (List.mem_cons_of_mem _ List.mem_cons_self)
      (unlocked_gate.clear.endpoint h.id)
    hy ha depth source notice
  exact ⟨hreact.toUntroubled, hy ▸ hreact.held, hreact.station⟩

/-- One end after the other is reported. Those still to be reported are let go of only when their
turn comes. -/
theorem leaves_report {handles told : List Handle} (hheld : x.scene.held = [.gate])
    (hx : Stage.Accounted ⟨x.scene, { untold := handles, told }⟩) :
    Leaves (fun _ => True) [.gate] x ((report handles).run (answering w l depth) x).2 := by
  induction handles generalizing told x with
  | nil => exact ⟨.refl x, hheld, trivial⟩
  | cons h rest ih =>
    have hfits {y : LoneStation (Company δ μ)} (hy : y.scene.held = [.gate])
        (hacc : Stage.Accounted ⟨y.scene, { untold := h :: rest, told }⟩) :
        Fits { untold := h :: rest, told } y.scene :=
      ⟨hacc.orderly, fun id hid => absurd hid List.not_mem_nil, .inl (hy ▸ List.mem_cons_self)⟩
    have hrun : (report (h :: rest)).run (answering w l depth) x =
        (report rest).run (answering w l depth) ((reportEnd h).run (answering w l depth)
          ((forget h.address).run (answering w l depth) x).2).2 := by
      rw [report, Program.bind_eq, Program.run_bind, Program.bind_eq, Program.run_bind]
    rw [hrun]
    have hforget : Leaves (fun _ => True)
        [.gate] x ((forget h.address).run (answering w l depth) x).2 :=
      leaves_minding (forget_minds unlocked_gate _) hheld
    have hforgot : ((forget h.address).run (answering w l depth) x).2.station =
        (x.station.releaseEntries h.address (w.now x.device.device).1).2 :=
      congrArg (fun y => y.2.station)
        (LoneStation.run_withLock_clock (company w)
          (l.react w depth) x .outbox (fun clock s => s.releaseEntries h.address clock)
          (hheld ▸ by decide))
    have hp := forget_proceeds (episode_sound depth) (hfits hheld hx)
        (ends_run_react (w := w) (l := l) (forget h.address) x)
    generalize ((forget h.address).run (answering w l depth) x).2 = y at hforget hforgot hp ⊢
    have hy : Stage.Accounted ⟨y.scene, { untold := h :: rest, told }⟩ := hp.path.accounted hx
    have hapart : y.station.Apart [.endpoint h.id, .gate] := by
      obtain ⟨hlt, hqueued, hwritten⟩ := hx.apart_of_forget rfl (w.now x.device.device).1
      intro id hid
      obtain rfl : id = h.id := by simpa using hid
      rw [hforgot]
      exact ⟨hlt, fun g hg => hqueued g (List.mem_append.mpr (List.mem_append.mp hg).symm),
        hwritten⟩
    have htell : Leaves _ [.gate] y ((reportEnd h).run (answering w l depth) y).2 :=
      leaves_reportEnd hforget.held hapart
    have hpath := (reportEnd_path (g := { told }) (episode_sound depth) (hfits hforget.held hy)
      (hforget.held ▸ List.mem_cons_self) (ends_run_react (w := w) (l := l) (reportEnd h) y)).1
    exact hforget.toUntroubled.leaves
      (htell.toUntroubled.leaves (ih htell.held (hpath.accounted hy)))

theorem leaves_retire (hheld : x.scene.held = [.gate]) (hx : Stage.Accounted ⟨x.scene, {}⟩) :
    Leaves (fun _ => True) [.gate] x (retire.run (answering w l depth) x).2 := by
  have htake : (withLock .conversations (modifyGet takeFinished)).run (answering w l depth) x =
      (.ok x.station.takeFinished.1, x.access fun s => s.takeFinished.2) := by
    rw [LoneStation.run_withLock _ _ x _ (hheld ▸ by decide), LoneStation.run_modifyGet]
    exact congrArg (Prod.mk _)
      (LoneStation.unlock_lock (x.access fun s => s.takeFinished.2) .conversations)
  unfold retire
  rw [Program.bind_eq, Program.run_bind, htake]
  dsimp only
  rw [Program.bind_eq, Program.run_bind, LoneStation.run_modify]
  have htaken :
      Stage.Accounted ⟨(x.access fun s => s.takeFinished.2).scene,
        { untold := x.station.takeFinished.1 }⟩ :=
    (Path.single (.retire (c := x.scene) (g := {}) rfl rfl)).accounted hx
  have hreport : Leaves _ [.gate] (x.access fun s => s.takeFinished.2)
      ((report x.station.takeFinished.1).run
    (answering w l depth) (x.access fun s => s.takeFinished.2)).2 := leaves_report hheld htaken
  exact ⟨⟨hreport.missed, hreport.outer, hreport.nested⟩, hreport.held, trivial⟩

theorem fits_of_accounted (hx : Stage.Accounted ⟨x.scene, {}⟩) : Fits {} x.scene :=
  ⟨hx.orderly, fun _ hid => absurd hid List.not_mem_nil, .inr ⟨rfl, rfl⟩⟩

theorem leaves_tick (hheld : x.scene.held = [.gate]) (hx : Stage.Accounted ⟨x.scene, {}⟩) :
    Leaves (fun _ => True) [.gate] x (tick.run (answering w l depth) x).2 := by
  rw [tick_eq_conduct, Program.bind_eq, Program.run_bind]
  have hconduct : Leaves (fun _ => True) [.gate] x (conduct.run (answering w l depth) x).2 :=
    leaves_minding (conduct_minds unlocked_gate rfl) hheld
  have hp := conduct_proceeds (episode_sound depth) (fits_of_accounted hx)
      (ends_run_react (w := w) (l := l) conduct x)
  cases (conduct.run (answering w l depth) x).1 with
  | false => exact hconduct
  | true => exact hconduct.toUntroubled.leaves (leaves_retire hconduct.held (hp.path.accounted hx))

theorem leaves_stamped (hheld : x.scene.held = [.gate]) (hx : Stage.Accounted ⟨x.scene, {}⟩)
    (clock : Micros) :
    Leaves (fun _ => True)
    [.gate] x (((modify fun s => { s with lastTick := some clock }).bind fun _ => tick).run
      (answering w l depth) x).2 := by
  rw [Program.run_bind, LoneStation.run_modify]
  have hstamped : Untroubled x (x.access fun s => { s with lastTick := some clock }) :=
    .of_eq rfl rfl rfl
  exact hstamped.leaves (leaves_tick hheld ((stamp_proceeds {} x.scene clock).path.accounted hx))

theorem leaves_throughGate {body : Action Unit} (hheld : x.scene.held = [])
    (hx : Stage.Accounted ⟨x.scene, {}⟩)
    (hbody : ∀ y : LoneStation (Company δ μ), y.scene.held = [.gate] →
      Stage.Accounted ⟨y.scene, {}⟩ →
      Leaves (fun _ => True) [.gate] y (body.run (answering w l depth) y).2) :
    Leaves (fun _ => True) [] x ((throughGate body).run (answering w l depth) x).2 := by
  unfold throughGate
  rw [Program.bind_eq, Program.run_bind, LoneStation.run_withLock _ _ x _
    (hheld ▸ List.not_mem_nil)]
  have hlocked : Stage.Accounted ⟨(x.lock .gate).scene, {}⟩ :=
    (Path.single (.locks (c := x.scene) _)).accounted hx
  have h := hbody (x.lock .gate) (congrArg (Lock.gate :: ·) hheld) hlocked
  exact ⟨⟨h.missed, h.outer, h.nested⟩, congrArg (·.erase .gate) h.held, trivial⟩

theorem leaves_tickIfDue (hheld : x.scene.held = []) (hx : Stage.Accounted ⟨x.scene, {}⟩) :
    Leaves (fun _ => True) [] x (tickIfDue.run (answering w l depth) x).2 := by
  rw [tickIfDue_eq, Program.run_bind]
  have hasked : Untroubled x (x.ask (company w).isActive).2 := .of_eq rfl rfl rfl
  change Leaves _ []
    x ((if (w.isActive x.device.device).1 then throughGate tickIfRested else .done ()).run
      (answering w l depth) (x.ask (company w).isActive).2).2
  split
  · refine hasked.leaves (leaves_throughGate hheld hx fun y hy hacc => ?_)
    unfold tickIfRested
    rw [Program.bind_eq, Program.run_bind, LoneStation.run_now, Program.bind_eq,
      Program.run_bind, LoneStation.run_get]
    have hread : Untroubled y (y.ask (company w).now).2 := .of_eq rfl rfl rfl
    refine hread.leaves ?_
    dsimp only
    split
    · exact ⟨.refl _, hy, trivial⟩
    · exact leaves_stamped (x := (y.ask (company w).now).2) hy hacc _
  · exact ⟨hasked, hheld, trivial⟩

theorem leaves_pacedTick (hheld : x.scene.held = []) (hx : Stage.Accounted ⟨x.scene, {}⟩) :
    Leaves (fun _ => True) [] x (pacedTick.run (answering w l depth) x).2 := by
  refine leaves_throughGate hheld hx fun y hy hacc => ?_
  rw [Program.bind_eq, Program.run_bind, LoneStation.run_now]
  have hread : Untroubled y (y.ask (company w).now).2 := .of_eq rfl rfl rfl
  exact hread.leaves (leaves_stamped (x := (y.ask (company w).now).2) hy hacc _)

/-- Between calls no lock is held, and entries and handles are as they are at every stage. -/
structure Settled (x : LoneStation (Company δ μ)) : Prop where
  held : x.scene.held = []
  accounted : Stage.Accounted ⟨x.scene, {}⟩

/-- A call made while no other is in progress. -/
theorem Settled.perform (h : Settled x) (u : Use) :
    Untroubled x (u.perform (answering w l depth) x).2 ∧
      Settled (u.perform (answering w l depth) x).2 := by
  obtain ⟨calls, hcalls⟩ :=
    calls_perform (w := w) (fun source notice x => episode_react depth source notice x) u x
  have hp := calls_proceeds (episode_sound depth) (fits_of_accounted h.accounted) hcalls
  refine ⟨?_, hp.held.trans h.held, hp.path.accounted h.accounted⟩
  cases hu : u.isTick with
  | false =>
    have hfree : Unlocked [] := fun _ hl => absurd hl List.not_mem_nil
    exact (leaves_perform hu hfree.clear h.held (hfree.apart _)).toUntroubled
  | true =>
    cases u with
    | tickIfDue =>
      have htick : Leaves _ [] x (tickIfDue.run (answering w l depth) x).2 :=
        leaves_tickIfDue h.held h.accounted
      exact ⟨htick.missed, htick.outer, htick.nested⟩
    | pacedTick =>
      have htick : Leaves _ [] x (pacedTick.run (answering w l depth) x).2 :=
        leaves_pacedTick h.held h.accounted
      exact ⟨htick.missed, htick.outer, htick.nested⟩
    | _ => cases hu

/-- The application's calls leave all locks free, wait for none in vain, and no tick called by the
listener changes anything. -/
theorem Settled.serve (h : Settled x) (p : Caller α) :
    (p.serve w l depth x).2.missed = x.missed ∧
      (∀ v ∈ (p.serve w l depth x).2.device.outer, v ∈ x.device.outer ∨ v.after.held = []) ∧
      ∀ v ∈ (p.serve w l depth x).2.device.nested, v ∈ x.device.nested ∨
        (v.use.isTick = true → v.after = v.before) := by
  induction p generalizing x with
  | done a => exact ⟨rfl, fun v hv => .inl hv, fun v hv => .inl hv⟩
  | ask u next ih =>
    obtain ⟨hu, hsettled⟩ := h.perform (w := w) (l := l) u
    have hput : Settled (u.enlist (answering w l depth) .putOuter x).2 :=
      ⟨hsettled.held, hsettled.accounted⟩
    obtain ⟨hmissed, houter, hnested⟩ := ih (u.enlist (answering w l depth) .putOuter x).1 hput
    refine ⟨hmissed.trans hu.missed, fun v hv => ?_, fun v hv => ?_⟩
    · rcases houter v hv with hv | hv
      · change v ∈ (u.perform (answering w l depth) x).2.device.outer ++ [_] at hv
        rcases List.mem_append.mp hv with hv | hv
        · exact .inl (hu.outer ▸ hv)
        · rw [List.mem_singleton.mp hv]
          exact .inr hsettled.held
      · exact .inr hv
    · rcases hnested v hv with hv | hv
      · exact hu.nested v hv
      · exact .inr hv

/-- Whatever the application calls, one call after the other, and whatever its listener calls when
it is told something: no lock is waited for in vain, all locks are free whenever a call of the
application returns, and a tick called by the listener changes nothing. -/
theorem no_lock_missed {config : Config} {c : Scene} (hc : Reaches config c) (w : Device δ)
    (l : Listener μ) (depth : Nat) (p : Caller α) (d : δ) (m : μ) :
    let y := (p.serve w l depth { scene := c, device := { device := d, memory := m } }).2
    y.missed = [] ∧ (∀ v ∈ y.device.outer, v.after.held = []) ∧
      ∀ v ∈ y.device.nested, v.use.isTick = true → v.after = v.before := by
  have hsettled : Settled { scene := c, device := ({ device := d, memory := m } : Company δ μ) } :=
    ⟨hc.free, hc.accounted⟩
  obtain ⟨hmissed, houter, hnested⟩ := hsettled.serve (w := w) (l := l) p
  exact ⟨hmissed, fun v hv => (houter v hv).resolve_left List.not_mem_nil,
    fun v hv => (hnested v hv).resolve_left List.not_mem_nil⟩

end Ticks

def written : Scene :=
  [Call.request 0x10 .physical [1, 2, 3] .diagnostics, .pacedTick].foldl
    (fun c call => call.perform c)
    { station := { settings := { source := 0xF1 }, budget := .ofBytes (64 * 1024) } }

theorem reaches_written : Reaches { source := 0xF1 } written := reaches_perform rfl _

def succeeding : Device Bool where
  now unheard := (0, unheard)
  isActive unheard := (true, unheard)
  available unheard := (0, unheard)
  read unheard := (none, unheard)
  write unheard _ := (true, unheard)
  outcome unheard := (if unheard then some .success else none, false)

def busy : Listener Nat := fun _ count =>
  .ask .settle fun _ => .ask (.setBlockSize 4) fun _ =>
    .ask (.request 0x10 .physical [4] .diagnostics) fun _ =>
    .ask .pacedTick fun _ => .ask .pendingCount fun _ => .done (count + 1)

def oneTick : Caller Unit := .ask .pacedTick .done

def afterOneTick : LoneStation (Company Bool Nat) :=
  (oneTick.serve succeeding busy 2
    { scene := written, device := { device := true, memory := 0 } }).2

theorem no_lock_missed_busy : Reaches { source := 0xF1 } written ∧ afterOneTick.device.memory = 1 ∧
    afterOneTick.device.nested.map (·.use.isTick) = [false, false, false, true, false] ∧
      afterOneTick.missed = [] ∧ (∀ v ∈ afterOneTick.device.outer, v.after.held = []) ∧
        ∀ v ∈ afterOneTick.device.nested, v.use.isTick = true → v.after = v.before :=
  ⟨reaches_written, rfl, rfl, no_lock_missed reaches_written succeeding busy 2 oneTick true 0⟩

end CanTransport.Station
