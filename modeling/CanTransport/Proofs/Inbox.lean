import CanTransport.Proofs.LoneTicks

/-! # What a tick does before it looks into its inbox

The frames that have come wait in an inbox, and clock and controller go their own way. Until a tick
looks for a frame it does the same whatever is there.
-/
namespace CanTransport
open CanTransport.Action CanTransport.Station

/-- A clock and a controller that go their own way whatever frames have come. -/
structure Port (κ : Type) where
  now : κ → Micros
  isActive : κ → Bool
  write : κ → Frame → Bool × κ
  outcome : κ → Option Ack × κ

def Port.device {κ : Type} (port : Port κ) : Device (List Frame × κ) where
  now d := (port.now d.2, d)
  isActive d := (port.isActive d.2, d)
  available d := (d.1.length, d)
  read d := (d.1.head?, d.1.tail, d.2)
  write d frame := ((port.write d.2 frame).1, d.1, (port.write d.2 frame).2)
  outcome d := ((port.outcome d.2).1, d.1, (port.outcome d.2).2)

def Program.Blind {α : Type} : Action α → Prop
  | .done _ => True
  | .ask q next => q ≠ .available ∧ q ≠ .read ∧ ∀ answer, (next answer).Blind

/-- Where a run first looks for a frame, if it does. -/
def LoneStation.looking {δ α : Type} (w : Device δ) :
    Action α → LoneStation δ → Option (LoneStation δ)
  | .done _, _ => none
  | .ask q next, x =>
    match q, next with
    | .available, _ => some x
    | q, next => looking w (next (w.alone q x).1) (w.alone q x).2

namespace Action
variable {α β : Type}

theorem blind_bind {p : Action α} {f : α → Action β} (hp : p.Blind) (hf : ∀ a, (f a).Blind) :
    Program.Blind (p.bind f) := by
  induction p with
  | done a => exact hf a
  | ask q next ih => exact ⟨hp.1, hp.2.1, fun answer => ih answer (hp.2.2 answer)⟩

theorem blind_withLock {lock : Lock} {body : Action α} (hb : body.Blind) :
    (withLock lock body).Blind := by
  refine blind_bind ⟨nofun, nofun, fun _ => trivial⟩ fun had => ?_
  cases had with
  | false => trivial
  | true => exact blind_bind hb fun _ => ⟨nofun, nofun, fun _ => trivial⟩

theorem blind_get : get.Blind := ⟨nofun, nofun, fun _ => trivial⟩

theorem blind_modify (change : Station → Station) :
    (modify change).Blind := ⟨nofun, nofun, fun _ => trivial⟩

theorem blind_modifyGet (change : Station → α × Station) :
    (modifyGet change).Blind := ⟨nofun, nofun, fun _ => trivial⟩

theorem blind_now : now.Blind := ⟨nofun, nofun, fun _ => trivial⟩

end Action

namespace Station

theorem blind_drainUpTo (fuel : Nat) : (drainUpTo fuel).Blind := by
  induction fuel with
  | zero => trivial
  | succ fuel ih =>
    refine blind_bind
      (blind_bind (blind_withLock (blind_bind ⟨nofun, nofun, fun _ => trivial⟩ fun ack => ?_))
        fun _ => trivial) fun taken => ?_
    · cases ack with
      | none => trivial
      | some ack => exact blind_modifyGet _
    · cases taken with
      | false => trivial
      | true => exact ih

theorem blind_deliverEntry (e : OutboxEntry) : (deliverEntry e).Blind := by
  refine blind_bind blind_get fun s => ?_
  split
  · exact blind_bind (blind_bind (blind_withLock (blind_bind blind_now fun _ => blind_modify _))
      fun _ => trivial) fun _ => trivial
  · trivial

theorem blind_deliverNext : deliverNext.Blind := by
  refine blind_bind (blind_withLock (blind_bind blind_now fun _ => blind_modifyGet _)) fun entry =>
    ?_
  split
  · trivial
  · exact blind_bind (blind_deliverEntry _) fun _ => trivial

theorem blind_deliverUpTo (fuel : Nat) : (deliverUpTo fuel).Blind := by
  induction fuel with
  | zero => trivial
  | succ fuel ih =>
    refine blind_bind blind_deliverNext fun delivered => ?_
    cases delivered with
    | none => trivial
    | some delivered => exact blind_bind ih fun _ => trivial

/-- What a tick does before it looks for a frame. -/
def prelude : Action Unit := settle >>= fun _ => startWaiting

theorem blind_prelude : prelude.Blind := by
  refine blind_bind (blind_bind ?_ fun _ => ?_) fun _ => ?_
  · exact blind_bind blind_get fun s => blind_drainUpTo _
  · exact blind_bind blind_get fun s => blind_deliverUpTo _
  · exact blind_bind (blind_withLock (blind_withLock (blind_modify _))) fun _ => trivial

def afterReading (settings : Settings) (frame : Option Frame) : Action Unit := do
  match ← withLock .conversations get with
  | .error _ => return
  | .ok s =>
    let tickAt ← now
    match ← dispatch tickAt frame s.active.handles with
    | some frame => openReceiver frame settings
    | none => pure ()
    retire

def course (settings : Settings) : Action Unit :=
  prelude.bind fun _ => (receiveFrame settings).bind fun frame => afterReading settings frame

theorem tick_eq : tick = (withLock .settings get).bind fun seen =>
    match seen with
    | .error _ => .done ()
    | .ok s => course s.settings := by
  unfold tick course
  refine congrArg _ (funext fun seen => ?_)
  cases seen with
  | error e => rfl
  | ok s => exact (Program.bind_assoc settle (fun _ => startWaiting) _).symm

def tickIfRested : Action Unit := do
  let clock ← now
  let s ← get
  if s.lastTick.any fun last => clock - last < s.runPeriod then return
  else
    modify fun s => { s with lastTick := some clock }
    tick

theorem tickIfDue_eq : tickIfDue = isActive.bind fun active =>
      if active then throughGate tickIfRested else .done () := rfl

end Station

namespace LoneStation
variable {δ κ α β : Type} {w : Device δ} {port : Port κ}

def withInbox (x : LoneStation (List Frame × κ)) (inbox : List Frame) :
    LoneStation (List Frame × κ) :=
  { x with device := (inbox, x.device.2) }

/-- What looks for no frame runs as it does whatever frames have come. -/
theorem run_withInbox {p : Action α} (hp : p.Blind) (x : LoneStation (List Frame × κ))
    (inbox : List Frame) :
    p.run port.device.alone (x.withInbox inbox) =
      ((p.run port.device.alone x).1, (p.run port.device.alone x).2.withInbox inbox) := by
  induction p generalizing x with
  | done a => rfl
  | ask q next ih =>
    -- no question but `available` and `read` looks at the inbox
    have hanswer : port.device.alone q (x.withInbox inbox) =
        ((port.device.alone q x).1, (port.device.alone q x).2.withInbox inbox) := by
      cases q with
      | acquire lock =>
        change (if lock ∈ x.scene.held then (false, (x.withInbox inbox).miss lock) else
          (true, (x.withInbox inbox).lock lock)) =
          ((if lock ∈ x.scene.held then (false, x.miss lock) else (true, x.lock lock)).1,
            (if lock ∈ x.scene.held then (false, x.miss lock) else (true, x.lock lock)).2.withInbox
            inbox)
        split
        · dsimp only [miss]
          split <;> rfl
        · rfl
      | available => exact absurd rfl hp.1
      | read => exact absurd rfl hp.2.1
      | write writer frame =>
        change ((port.write x.device.2 frame).1, if (port.write x.device.2 frame).1 then
            ((x.withInbox inbox).ask (port.device.write · frame)).2.note (.accepted writer frame)
          else ((x.withInbox inbox).ask (port.device.write · frame)).2) =
            ((port.write x.device.2 frame).1, (if (port.write x.device.2 frame).1 then
              (x.ask (port.device.write · frame)).2.note (.accepted writer frame)
            else (x.ask (port.device.write · frame)).2 : LoneStation (List Frame × κ)).withInbox
              inbox)
        cases (port.write x.device.2 frame).1 <;> rfl
      | outcome =>
        change ((port.outcome x.device.2).1, (port.outcome x.device.2).1.elim
          ((x.withInbox inbox).ask port.device.outcome).2
            fun ack => ((x.withInbox inbox).ask port.device.outcome).2.note (.reported ack)) =
          ((port.outcome x.device.2).1,
            ((port.outcome x.device.2).1.elim (x.ask port.device.outcome).2 fun ack =>
              (x.ask port.device.outcome).2.note (.reported ack) :
              LoneStation (List Frame × κ)).withInbox inbox)
        cases (port.outcome x.device.2).1 <;> rfl
      | release | access | now | isActive | notify => rfl
    rw [Program.run, hanswer]
    exact ih _ (hp.2.2 _) _

theorem looking_bind (p : Action α) (f : α → Action β) (x : LoneStation δ) :
    looking w (p.bind f) x =
      (looking w p x).or (looking w (f (p.run w.alone x).1) (p.run w.alone x).2) := by
  induction p generalizing x with
  | done a => rfl
  | ask q next ih =>
    cases q with
    | available => rfl
    | acquire | release | access | now | isActive | read | write | outcome | notify => exact ih _ _

theorem looking_blind {p : Action α} (hp : p.Blind) (x : LoneStation δ) : looking w p x = none := by
  induction p generalizing x with
  | done a => rfl
  | ask q next ih =>
    cases q with
    | available => exact absurd rfl hp.1
    | acquire | release | access | now | isActive | read | write | outcome | notify =>
      exact ih _ (hp.2.2 _) _

theorem run_tick {x : LoneStation δ} (hu : Unlocked x.scene.held) :
    tick.run w.alone x = (course x.station.settings).run w.alone x := by
  rw [tick_eq, Program.run_bind, run_look (hu.free (by simp))]

theorem looking_tick {x : LoneStation δ} (hu : Unlocked x.scene.held) :
    looking w tick x = some (prelude.run w.alone x).2 := by
  rw [tick_eq, looking_bind, looking_blind (blind_withLock blind_get), run_look (hu.free (by simp))]
  refine (looking_bind prelude _ x).trans ?_
  rw [looking_blind blind_prelude]
  rfl

/-- What a tick finds in its inbox makes no other difference. -/
theorem run_course (x : LoneStation (List Frame × κ)) (settings : Settings) (inbox : List Frame) :
    (course settings).run port.device.alone (x.withInbox inbox) =
      (afterReading settings (inbox.head?.filter settings.admits)).run port.device.alone
        ((prelude.run port.device.alone x).2.withInbox inbox.tail) := by
  have hread (y : LoneStation (List Frame × κ)) : (receiveFrame settings).run
      port.device.alone (y.withInbox inbox) =
      (inbox.head?.filter settings.admits, y.withInbox inbox.tail) := by
    cases inbox with
    | nil => rfl
    | cons f rest => rfl
  rw [course, Program.run_bind, run_withInbox blind_prelude]
  dsimp only
  rw [Program.run_bind, hread]

/-- A tick that is not given up has the gate and has noted the time. -/
def begun (port : Port κ) (x : LoneStation (List Frame × κ)) : LoneStation (List Frame × κ) :=
  (x.lock .gate).access fun s => { s with lastTick := some (port.now x.device.2) }

theorem run_throughGate {x : LoneStation δ} (hfree : .gate ∉ x.scene.held) (body : Action Unit) :
    ((throughGate body).run w.alone x).2 = (body.run w.alone (x.lock .gate)).2.unlock .gate := by
  unfold throughGate
  rw [Program.bind_eq, Program.run_bind, Device.alone, run_withLock w _ x _ hfree]
  rfl

theorem looking_throughGate {x : LoneStation δ} (hfree : .gate ∉ x.scene.held)
    (body : Action Unit) :
    looking w (throughGate body) x = looking w body (x.lock .gate) := by
  have hacquire : (acquire .gate).run w.alone x = (true, x.lock .gate) := by
    change (if Lock.gate ∈ x.scene.held then (false, x.miss .gate) else (true, x.lock .gate)) = _
    rw [if_neg hfree]
  unfold throughGate withLock
  rw [Program.bind_eq, looking_bind, Program.bind_eq, looking_bind, hacquire]
  dsimp only
  rw [if_pos rfl, Program.bind_eq, looking_bind]
  change ((none : Option (LoneStation δ)).or ((looking w body (x.lock .gate)).or none)).or none = _
  simp

def GivesUp (port : Port κ) (p : Action Unit) (x : LoneStation (List Frame × κ)) : Prop :=
  ∀ inbox, (p.run port.device.alone (x.withInbox inbox)).2 = x.withInbox inbox ∧
    looking port.device p (x.withInbox inbox) = none

def GoesOn (port : Port κ) (p : Action Unit) (x : LoneStation (List Frame × κ)) : Prop :=
  ∀ inbox, (p.run port.device.alone (x.withInbox inbox)).2 =
      (tick.run port.device.alone ((begun port x).withInbox inbox)).2.unlock .gate ∧
    looking port.device p (x.withInbox inbox) =
    looking port.device tick ((begun port x).withInbox inbox)

theorem pacedTick_goesOn {x : LoneStation (List Frame × κ)} (hfree : x.scene.held = []) :
    GoesOn port pacedTick x := by
  intro inbox
  have hgate : .gate ∉ (x.withInbox inbox).scene.held := by
    change Lock.gate ∉ x.scene.held
    rw [hfree]
    exact List.not_mem_nil
  unfold pacedTick
  rw [run_throughGate hgate, looking_throughGate hgate]
  exact ⟨rfl, rfl⟩

theorem tickIfRested_begins (port : Port κ) (x : LoneStation (List Frame × κ)) :
    ((x.station.lastTick.any fun last => port.now x.device.2 - last < x.station.runPeriod) = true →
      tickIfRested.run port.device.alone x = ((), x) ∧ looking port.device tickIfRested x = none) ∧
    (¬ (x.station.lastTick.any fun last => port.now x.device.2 - last < x.station.runPeriod) =
      true → tickIfRested.run port.device.alone x =
          tick.run port.device.alone
          (x.access fun s => { s with lastTick := some (port.now x.device.2) }) ∧
        looking port.device tickIfRested x =
          looking port.device tick
          (x.access fun s => { s with lastTick := some (port.now x.device.2) })) := by
  have hget : get.run port.device.alone x = (x.station, x) := run_get _ _ x
  have hrun : tickIfRested.run port.device.alone x = Program.run port.device.alone
      (if x.station.lastTick.any fun last => port.now x.device.2 - last <
        x.station.runPeriod then .done ()
        else (modify fun s => { s with lastTick := some (port.now x.device.2) }).bind fun _ =>
          tick : Action Unit) x := by
    refine (Program.run_bind port.device.alone get _ x).trans ?_
    rw [hget]
    rfl
  have hlooking : looking port.device tickIfRested x = looking port.device
      (if x.station.lastTick.any fun last => port.now x.device.2 - last <
        x.station.runPeriod then .done ()
        else (modify fun s => { s with lastTick := some (port.now x.device.2) }).bind fun _ =>
          tick : Action Unit) x := by
    refine (looking_bind get _ x).trans ?_
    rw [hget]
    rfl
  rw [hrun, hlooking]
  constructor
  · intro hearly
    rw [if_pos hearly]
    exact ⟨rfl, rfl⟩
  · intro hrested
    rw [if_neg hrested]
    exact ⟨rfl, rfl⟩

/-- Whether a tick is given up does not depend on the inbox. -/
theorem tickIfDue_begins {x : LoneStation (List Frame × κ)} (hfree : x.scene.held = []) :
    GivesUp port tickIfDue x ∨ GoesOn port tickIfDue x := by
  have hgate (inbox : List Frame) : .gate ∉ (x.withInbox inbox).scene.held := by
    change Lock.gate ∉ x.scene.held
    rw [hfree]
    exact List.not_mem_nil
  have hstart (inbox : List Frame) : tickIfDue.run port.device.alone (x.withInbox inbox) =
        (if port.isActive x.device.2 then throughGate tickIfRested else .done ()).run
        port.device.alone (x.withInbox inbox) ∧
      looking port.device tickIfDue (x.withInbox inbox) =
        looking port.device (if port.isActive x.device.2 then throughGate tickIfRested else
          .done ()) (x.withInbox inbox) :=
    ⟨rfl, rfl⟩
  have hclocked (inbox : List Frame) := tickIfRested_begins port ((x.withInbox inbox).lock .gate)
  by_cases hactive : port.isActive x.device.2 = true
  · by_cases hearly : (x.station.lastTick.any fun last => port.now x.device.2 - last <
      x.station.runPeriod) = true
    · refine .inl fun inbox => ?_
      obtain ⟨hrun, hlooking⟩ := hstart inbox
      obtain ⟨hrun', hlooking'⟩ := (hclocked inbox).1 hearly
      rw [hrun, hlooking, if_pos hactive, run_throughGate (hgate inbox),
        looking_throughGate (hgate inbox), hrun', hlooking']
      exact ⟨unlock_lock _ _, rfl⟩
    · refine .inr fun inbox => ?_
      obtain ⟨hrun, hlooking⟩ := hstart inbox
      obtain ⟨hrun', hlooking'⟩ := (hclocked inbox).2 hearly
      rw [hrun, hlooking, if_pos hactive, run_throughGate (hgate inbox),
        looking_throughGate (hgate inbox), hrun', hlooking']
      exact ⟨rfl, rfl⟩
  · refine .inl fun inbox => ?_
    obtain ⟨hrun, hlooking⟩ := hstart inbox
    rw [hrun, hlooking, if_neg hactive]
    exact ⟨rfl, rfl⟩

end LoneStation

end CanTransport
