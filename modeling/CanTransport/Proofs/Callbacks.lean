import CanTransport.Proofs.Inbox

/-! # Listeners that make calls

A listener is told something in the middle of a tick. It may call the station again, and what it
calls may depend on what it has been told and answered so far. Of the locks that it may find held it
waits for none, and a tick that it calls is given up at once.
-/
namespace CanTransport

namespace Station
open CanTransport.Action

inductive Use
  | request (target : UInt8) (type : TargetType) (message : List UInt8) (kind : MessageType)
  | tickIfDue
  | pacedTick
  | settle
  | source
  | setSource (source : UInt8)
  | hasGroup (group : UInt8)
  | addGroup (group : UInt8)
  | removeGroup (group : UInt8)
  | blockSize
  | setBlockSize (blockSize : UInt8)
  | separation
  | setSeparation (separation : SeparationTime)
  | availableMemory
  | pendingCount
  | activeCount
  | unacknowledgedCount

namespace Use

@[reducible] def Answer : Use → Type
  | request .. => Except RequestError EndpointId
  | tickIfDue | pacedTick => Unit
  | settle => Nat
  | source | blockSize => Except LockTimeout UInt8
  | separation => Except LockTimeout SeparationTime
  | hasGroup _ | addGroup _ | removeGroup _ => Except LockTimeout Bool
  | setSource _ | setBlockSize _ => Except LockTimeout Unit
  | setSeparation _ => Except ConfigError Unit
  | availableMemory => Int
  | pendingCount | activeCount | unacknowledgedCount => Except LockTimeout Nat

def action : (u : Use) → Action u.Answer
  | request target type message kind => Station.request target type message kind
  | tickIfDue => Station.tickIfDue
  | pacedTick => Station.pacedTick
  | settle => Station.settle
  | source => Station.source
  | setSource value => Station.setSource value
  | hasGroup group => Station.hasGroup group
  | addGroup group => Station.addGroup group
  | removeGroup group => Station.removeGroup group
  | blockSize => Station.blockSize
  | setBlockSize value => Station.setBlockSize value
  | separation => Station.separation
  | setSeparation value => Station.setSeparation value
  | availableMemory => Station.availableMemory
  | pendingCount => Station.pendingCount
  | activeCount => Station.activeCount
  | unacknowledgedCount => Station.unacknowledgedCount

def isTick : Use → Bool
  | tickIfDue | pacedTick => true
  | _ => false

def record (s : Station) : (u : Use) → u.Answer → List Event
  | request target type message kind, answer => s.admission target type message kind answer
  | _, _ => []

def perform {δ : Type} (answer : (q : Query) → LoneStation δ → q.Answer × LoneStation δ)
    (u : Use) (x : LoneStation δ) :
    u.Answer × LoneStation δ :=
  let made := u.action.run answer x
  (made.1, { made.2 with scene.events := made.2.scene.events ++ u.record x.station made.1 })

end Use

abbrev Caller (α : Type) : Type := Program Use Use.Answer α

/-- What a listener does when it is told something. It has a memory of its own. -/
abbrev Listener (μ : Type) : Type := Notice → μ → Caller μ

structure Made where
  use : Use
  before : Scene
  after : Scene

/-- A device, the memory of a listener, and the calls that have returned, latest last. -/
structure Company (δ μ : Type) where
  device : δ
  memory : μ
  /-- Made while no other call was in progress. -/
  outer : List Made := []
  /-- Made from within others. -/
  nested : List Made := []

section Company
variable {δ μ α : Type}

def Company.ask (x : Company δ μ) (question : δ → α × δ) : α × Company δ μ :=
  ((question x.device).1, { x with device := (question x.device).2 })

def Company.putNested (x : Company δ μ) (made : Made) : Company δ μ :=
  { x with nested := x.nested ++ [made] }

def Company.putOuter (x : Company δ μ) (made : Made) : Company δ μ :=
  { x with outer := x.outer ++ [made] }

/-- The device, as one of the company. -/
def company (w : Device δ) : Device (Company δ μ) where
  now x := x.ask w.now
  isActive x := x.ask w.isActive
  available x := x.ask w.available
  read x := x.ask w.read
  write x frame := x.ask (w.write · frame)
  outcome x := x.ask w.outcome

def Use.enlist (answer : (q : Query) → LoneStation (Company δ μ) →
    q.Answer × LoneStation (Company δ μ)) (put : Company δ μ → Made → Company δ μ) (u : Use)
    (x : LoneStation (Company δ μ)) : u.Answer × LoneStation (Company δ μ) :=
  let made := u.perform answer x
  (made.1, { made.2 with device := put made.2.device ⟨u, x.scene, made.2.scene⟩ })

/-- What the listener does to the station when it is told something. Its calls are nested at most
`depth` deep. -/
def Listener.react (w : Device δ) (l : Listener μ) :
    Nat → EndpointId → Notice → LoneStation (Company δ μ) → LoneStation (Company δ μ)
  | 0, _, _, x => x
  | depth + 1, _, notice, x =>
    let told := (l notice x.device.memory).run
      (Use.enlist ((company w).answer (l.react w depth)) .putNested) x
    { told.2 with device.memory := told.1 }

abbrev answering (w : Device δ) (l : Listener μ) (depth : Nat) :
    (q : Query) → LoneStation (Company δ μ) → q.Answer × LoneStation (Company δ μ) :=
      (company w).answer (l.react w depth)

def Caller.serve (w : Device δ) (l : Listener μ) (depth : Nat) (p : Caller α)
    (x : LoneStation (Company δ μ)) :
    α × LoneStation (Company δ μ) :=
  p.run (Use.enlist (answering w l depth) .putOuter) x

end Company

section Quiet
variable {δ μ α : Type} {w : Device δ} {l : Listener μ} {I : Station → Prop} {T : List Lock → Prop}
  {held last : List Lock} {Q : α → Prop}
  {tell tell' : EndpointId → Notice → LoneStation (Company δ μ) → LoneStation (Company δ μ)}
  {x y z : LoneStation (Company δ μ)}

/-- In between no lock has been waited for in vain, and no tick within another call has changed
anything. -/
structure Untroubled (x y : LoneStation (Company δ μ)) : Prop where
  missed : y.missed = x.missed
  outer : y.device.outer = x.device.outer
  nested : ∀ v ∈ y.device.nested, v ∈ x.device.nested ∨ (v.use.isTick = true → v.after = v.before)

/-- What is left behind besides. -/
structure Leaves (I : Station → Prop) (last : List Lock) (x y : LoneStation (Company δ μ)) :
    Prop extends Untroubled x y where
  held : y.scene.held = last
  station : I y.station

theorem Untroubled.refl (x : LoneStation (Company δ μ)) :
    Untroubled x x := ⟨rfl, rfl, fun _ hv => .inl hv⟩

theorem Untroubled.of_eq (hm : y.missed = x.missed) (ho : y.device.outer = x.device.outer)
    (hn : y.device.nested = x.device.nested) :
    Untroubled x y := ⟨hm, ho, fun _ hv => .inl (hn ▸ hv)⟩

theorem Untroubled.trans (h : Untroubled x y) (h' : Untroubled y z) : Untroubled x z := by
  refine ⟨h'.missed.trans h.missed, h'.outer.trans h.outer, fun v hv => ?_⟩
  rcases h'.nested v hv with hv | hv
  · exact h.nested v hv
  · exact .inr hv

theorem Untroubled.leaves (h : Untroubled x y) (h' : Leaves I last y z) : Leaves I last x z :=
  ⟨h.trans h'.toUntroubled, h'.held, h'.station⟩

theorem Leaves.refl (hI : I x.station) : Leaves I x.scene.held x x := ⟨.refl x, rfl, hI⟩

theorem answer_write (tell : EndpointId → Notice → LoneStation (Company δ μ) →
    LoneStation (Company δ μ)) (writer : EndpointId) (frame : Frame)
    (x : LoneStation (Company δ μ)) :
    Untroubled x ((company w).answer tell (.write writer frame) x).2 ∧
      ((company w).answer tell (.write writer frame) x).2.scene.held = x.scene.held ∧
        ((company w).answer tell (.write writer frame) x).2.station = x.station := by
  unfold Device.answer
  dsimp only
  split <;> exact ⟨.of_eq rfl rfl rfl, rfl, rfl⟩

theorem answer_outcome (tell : EndpointId → Notice → LoneStation (Company δ μ) →
    LoneStation (Company δ μ)) (x : LoneStation (Company δ μ)) :
    Untroubled x ((company w).answer tell .outcome x).2 ∧
      ((company w).answer tell .outcome x).2.scene.held = x.scene.held ∧
        ((company w).answer tell .outcome x).2.station = x.station := by
  unfold Device.answer
  dsimp only
  cases (x.ask (company w).outcome).1 <;> exact ⟨.of_eq rfl rfl rfl, rfl, rfl⟩

/-- A program that heeds what is held waits for nothing, if that holds of what the listener does,
too. -/
theorem leaves_run {p : Action α} (hp : p.Heeds I T last Q held) (hheld : x.scene.held = held)
    (hI : I x.station)
    (ht : ∀ source notice (x : LoneStation (Company δ μ)), T x.scene.held → I x.station →
      Leaves I x.scene.held x (tell source notice x)) :
    Leaves I last x (p.run ((company w).answer tell) x).2 ∧
      Q (p.run ((company w).answer tell) x).1 := by
  induction p generalizing x held with
  | done a =>
    obtain ⟨rfl, ha⟩ := hp
    exact ⟨⟨.refl x, hheld, hI⟩, ha⟩
  | ask q next ih =>
    have hnext {answer : q.Answer} {x' : LoneStation (Company δ μ)} {held' : List Lock}
        (hu : Untroubled x x') (hp' : (next answer).Heeds I T last Q held')
        (hheld' : x'.scene.held = held') (hI' : I x'.station) :
        Leaves I last x ((next answer).run ((company w).answer tell) x').2 ∧
          Q ((next answer).run ((company w).answer tell) x').1 := by
      obtain ⟨h, hq⟩ := ih answer hp' hheld' hI'
      exact ⟨hu.leaves h, hq⟩
    cases q with
    | acquire lock =>
      have hanswer : (company w).answer tell (.acquire lock) x = (true, x.lock lock) :=
        if_neg (hheld ▸ hp.1)
      rw [Program.run, hanswer]
      exact hnext (.of_eq rfl rfl rfl) hp.2 (congrArg (lock :: ·) hheld) hI
    | release lock => exact hnext (.of_eq rfl rfl rfl) hp (congrArg (·.erase lock) hheld) hI
    | access change =>
      obtain ⟨hI', hp⟩ := hp x.station hI
      exact hnext (.of_eq rfl rfl rfl) hp hheld hI'
    | now | isActive | available | read => exact hnext (.of_eq rfl rfl rfl) (hp _) hheld hI
    | write writer frame =>
      obtain ⟨hu, hsame, hstation⟩ := answer_write (w := w) tell writer frame x
      exact hnext hu (hp _) (hsame.trans hheld) (hstation ▸ hI)
    | outcome =>
      obtain ⟨hu, hsame, hstation⟩ := answer_outcome (w := w) tell x
      exact hnext hu (hp _) (hsame.trans hheld) (hstation ▸ hI)
    | notify source notice =>
      have hreact := ht source notice (x.note (.told source notice)) (hheld ▸ hp.1) hI
      have hnoted : Untroubled x (x.note (.told source notice)) := .of_eq rfl rfl rfl
      exact hnext (hnoted.trans hreact.toUntroubled) hp.2 (hreact.held.trans hheld) hreact.station

theorem Use.heeds (hc : Clear held) {u : Use} (hu : u.isTick = false) :
    u.action.Heeds (Apart held) T held (fun _ => True) held := by
  cases u with
  | tickIfDue | pacedTick => cases hu
  | request target type message kind => exact request_heeds hc target type message kind
  | settle => exact settle_heeds hc
  | source => exact reading_heeds .settings (hc.free nofun nofun) _
  | hasGroup group => exact reading_heeds .settings (hc.free nofun nofun) _
  | blockSize => exact reading_heeds .settings (hc.free nofun nofun) _
  | separation => exact reading_heeds .settings (hc.free nofun nofun) _
  | setSource value =>
    exact heeds_imp (changeSettings_heeds hc fun s => { s with source := value }) fun _ _ => trivial
  | addGroup group => exact taking_heeds .settings (hc.free nofun nofun) fun _ hs => hs
  | removeGroup group => exact taking_heeds .settings (hc.free nofun nofun) fun _ hs => hs
  | setBlockSize value => exact setBlockSize_heeds hc value
  | setSeparation value => exact setSeparation_heeds hc value
  | availableMemory => exact heeds_bind heeds_get fun _ _ => heeds_done trivial
  | pendingCount => exact reading_heeds .pending (hc.free nofun nofun) _
  | activeCount => exact reading_heeds .conversations (hc.free nofun nofun) _
  | unacknowledgedCount => exact reading_heeds .outbox (hc.free nofun nofun) _

theorem leaves_perform {u : Use} (hu : u.isTick = false) (hc : Clear held)
    (hheld : x.scene.held = held) (ha : x.station.Apart held) :
    Leaves (Apart held) held x (u.perform ((company w).answer tell) x).2 := by
  obtain ⟨h, -⟩ := leaves_run (w := w) (T := fun _ => False)
      (Use.heeds hc hu) hheld ha fun _ _ _ ht => ht.elim
  exact ⟨⟨h.missed, h.outer, h.nested⟩, h.held, h.station⟩

theorem run_throughGate_held (hgate : .gate ∈ x.scene.held) (body : Action Unit) :
    (throughGate body).run ((company w).answer tell) x = ((), x) := by
  unfold throughGate
  rw [Program.bind_eq, Program.run_bind, LoneStation.run_withLock_held _ _ _ _ hgate]
  rfl

theorem perform_held {u : Use} (hu : u.isTick = true) (hgate : .gate ∈ x.scene.held) :
    ∃ a d, ∀ tell, u.perform ((company w).answer tell) x = (a, { x with device.device := d }) := by
  have hplain (y : LoneStation (Company δ μ)) : { y with scene.events := y.scene.events ++ [] } =
      y := by rw [List.append_nil]
  cases u with
  | tickIfDue =>
    refine ⟨(), (w.isActive x.device.device).2, fun tell => congrArg (Prod.mk ())
      ((hplain _).trans ?_)⟩
    change ((Station.tickIfDue.run ((company w).answer tell) x).2 : LoneStation (Company δ μ)) =
      (x.ask (company w).isActive).2
    rw [tickIfDue_eq, Program.run_bind]
    change ((if (w.isActive x.device.device).1 then throughGate tickIfRested else .done ()).run
      ((company w).answer tell) (x.ask (company w).isActive).2).2 = (x.ask (company w).isActive).2
    split
    · exact congrArg Prod.snd (run_throughGate_held (x := (x.ask (company w).isActive).2) hgate _)
    · rfl
  | pacedTick =>
    exact ⟨(), x.device.device, fun tell =>
      congrArg (Prod.mk ()) ((hplain _).trans (congrArg Prod.snd (run_throughGate_held hgate _)))⟩
  | _ => cases hu

/-- Whatever the listener calls, it waits for no lock, and no tick that it calls changes anything.
-/
theorem leaves_react (hgate : .gate ∈ held) (hc : Clear held) (hheld : x.scene.held = held)
    (ha : x.station.Apart held) (depth : Nat) (source : EndpointId) (notice : Notice) :
    Leaves (Apart held) held x (l.react w depth source notice x) := by
  cases depth with
  | zero => exact hheld ▸ .refl (hheld ▸ ha)
  | succ depth =>
    suffices h : ∀ (p : Caller μ) (y : LoneStation (Company δ μ)), y.scene.held = held →
        y.station.Apart held →
        Leaves (Apart held) held y (p.run (Use.enlist (answering w l depth) .putNested) y).2 by
      obtain ⟨hu, hheld, hstation⟩ := h (l notice x.device.memory) x hheld ha
      exact ⟨⟨hu.missed, hu.outer, hu.nested⟩, hheld, hstation⟩
    intro p
    induction p with
    | done m => exact fun y hy ha => ⟨.refl y, hy, ha⟩
    | ask u next ih =>
      intro y hy ha
      have hcall : Leaves (Apart held) held y (u.perform (answering w l depth) y).2 ∧
          (u.isTick = true → (u.perform (answering w l depth) y).2.scene = y.scene) := by
        cases hu : u.isTick with
        | false => exact ⟨leaves_perform hu hc hy ha, nofun⟩
        | true =>
          obtain ⟨a, d, hd⟩ := perform_held (w := w) hu (hy ▸ hgate)
          rw [hd]
          exact ⟨⟨.of_eq rfl rfl rfl, hy, ha⟩, fun _ => rfl⟩
      obtain ⟨h, hsame⟩ := hcall
      have hput : Untroubled y (u.enlist (answering w l depth) .putNested y).2 := by
        refine ⟨h.missed, h.outer, fun v hv => ?_⟩
        rcases List.mem_append.mp hv with hv | hv
        · exact h.nested v hv
        · rw [List.mem_singleton.mp hv]
          exact .inr hsame
      exact hput.leaves (ih _ _ h.held h.station)

theorem run_untold {p : Action α} (hp : p.Heeds I (fun _ => False) last Q held)
    (hheld : x.scene.held = held) (hI : I x.station) :
    p.run ((company w).answer tell) x = p.run ((company w).answer tell') x := by
  induction p generalizing x held with
  | done a => rfl
  | ask q next ih =>
    cases q with
    | acquire lock =>
      have hanswer (tell : EndpointId → Notice → LoneStation (Company δ μ) →
          LoneStation (Company δ μ)) :
          (company w).answer tell (.acquire lock) x = (true, x.lock lock) := if_neg (hheld ▸ hp.1)
      rw [Program.run, Program.run, hanswer, hanswer]
      exact ih true hp.2 (congrArg (lock :: ·) hheld) hI
    | release lock => exact ih () hp (congrArg (·.erase lock) hheld) hI
    | access change =>
      obtain ⟨hI', hp⟩ := hp x.station hI
      exact ih x.station hp hheld hI'
    | now | isActive | available | read => exact ih _ (hp _) hheld hI
    | write writer frame =>
      obtain ⟨-, hsame, hstation⟩ := answer_write (w := w) tell writer frame x
      exact ih _ (hp _) (hsame.trans hheld) (hstation ▸ hI)
    | outcome =>
      obtain ⟨-, hsame, hstation⟩ := answer_outcome (w := w) tell x
      exact ih _ (hp _) (hsame.trans hheld) (hstation ▸ hI)
    | notify source notice => exact hp.1.elim

/-- The listener is told nothing by what it calls itself, so its calls are nested no deeper than
one. -/
theorem react_depth (hgate : .gate ∈ held) (hc : Clear held) (hheld : x.scene.held = held)
    (ha : x.station.Apart held) (depth : Nat) (source : EndpointId) (notice : Notice) :
    l.react w (depth + 1) source notice x = l.react w 1 source notice x := by
  suffices h : ∀ (p : Caller μ) (y : LoneStation (Company δ μ)), y.scene.held = held →
      y.station.Apart held →
      p.run (Use.enlist ((company w).answer (l.react w depth)) .putNested) y =
        p.run (Use.enlist ((company w).answer (l.react w 0)) .putNested) y by
    rw [Listener.react, Listener.react, h (l notice x.device.memory) x hheld ha]
  intro p
  induction p with
  | done m => exact fun _ _ _ => rfl
  | ask u next ih =>
    intro y hy ha
    have hcall : u.perform ((company w).answer (l.react w depth)) y =
        u.perform ((company w).answer (l.react w 0)) y ∧
        (u.perform ((company w).answer (l.react w 0)) y).2.scene.held = held ∧
          (u.perform ((company w).answer (l.react w 0)) y).2.station.Apart held := by
      cases hu : u.isTick with
      | false =>
        have h : Leaves _ held y (u.perform ((company w).answer (l.react w 0)) y).2 :=
          leaves_perform hu hc hy ha
        exact ⟨congrArg
          (fun made =>
            (made.1, { made.2 with scene.events := made.2.scene.events ++ u.record y.station made.1 }))
          (run_untold (Use.heeds hc hu) hy ha), h.held, h.station⟩
      | true =>
        obtain ⟨a, d, hd⟩ := perform_held (w := w) hu (hy ▸ hgate)
        rw [hd, hd]
        exact ⟨rfl, hy, ha⟩
    obtain ⟨hsame, hheld', ha'⟩ := hcall
    have hput : u.enlist ((company w).answer (l.react w depth)) .putNested y =
        u.enlist ((company w).answer (l.react w 0)) .putNested y :=
      congrArg (fun made =>
        (made.1, { made.2 with device := made.2.device.putNested ⟨u, y.scene, made.2.scene⟩ }))
        hsame
    rw [Program.run, Program.run, hput]
    exact ih _ _ hheld' ha'

/-- A call is one of those that may be made, or changes nothing. -/
theorem Use.calls {inner : Scene → Scene → Prop} {c c' : Scene} {u : Use} {a : u.Answer}
    (h : u.action.Ends inner c a c') :
    ∃ calls, Calls inner calls c { c' with events := c'.events ++ u.record c.station a } := by
  have hsilent (hr : u.record c.station a = []) :
      { c' with events := c'.events ++ u.record c.station a } = c' := by
    rw [hr, List.append_nil]
  cases u with
  | request target type message kind =>
    exact ⟨[.request target type message kind], _, ⟨a, c', h, rfl⟩, rfl⟩
  | tickIfDue => exact ⟨[.tickIfDue], _, ⟨_, h⟩, hsilent rfl⟩
  | pacedTick => exact ⟨[.pacedTick], _, ⟨_, h⟩, hsilent rfl⟩
  | settle => exact ⟨[.settle], _, ⟨_, h⟩, hsilent rfl⟩
  | setSource value => exact ⟨[.setSource value], _, ⟨_, h⟩, hsilent rfl⟩
  | addGroup group => exact ⟨[.addGroup group], _, ⟨_, h⟩, hsilent rfl⟩
  | removeGroup group => exact ⟨[.removeGroup group], _, ⟨_, h⟩, hsilent rfl⟩
  | setBlockSize value => exact ⟨[.setBlockSize value], _, ⟨_, h⟩, hsilent rfl⟩
  | setSeparation value => exact ⟨[.setSeparation value], _, ⟨_, h⟩, hsilent rfl⟩
  | source | hasGroup | blockSize | separation | pendingCount | activeCount | unacknowledgedCount =>
    exact ⟨[], (hsilent rfl).trans (ends_reading h)⟩
  | availableMemory =>
    obtain ⟨s, c₁, hs, -, rfl⟩ := ends_bind.mp h
    exact ⟨[], (hsilent rfl).trans (ends_get.mp hs).2⟩

theorem calls_perform {depth : Nat}
    (ht : ∀ source notice (x : LoneStation (Company δ μ)),
      Episode depth x.scene (tell source notice x).scene) (u : Use)
    (x : LoneStation (Company δ μ)) :
    ∃ calls, Calls (Episode depth) calls x.scene (u.perform ((company w).answer tell) x).2.scene :=
  Use.calls (LoneStation.ends_answer (episode_refl depth) ht u.action x)

theorem episode_react (depth : Nat) (source : EndpointId) (notice : Notice)
    (x : LoneStation (Company δ μ)) :
    Episode depth x.scene (l.react w depth source notice x).scene := by
  induction depth generalizing source notice x with
  | zero => rfl
  | succ depth ih =>
    suffices h : ∀ (p : Caller μ) (y : LoneStation (Company δ μ)), ∃ calls,
        Calls (Episode depth) calls y.scene
        (p.run (Use.enlist (answering w l depth) .putNested) y).2.scene from
      h (l notice x.device.memory) x
    intro p
    induction p with
    | done m => exact fun y => ⟨[], rfl⟩
    | ask u next ihp =>
      intro y
      obtain ⟨calls, hcalls⟩ := calls_perform (w := w) ih u y
      obtain ⟨more, hmore⟩ := ihp _ (u.enlist (answering w l depth) .putNested y).2
      exact ⟨calls ++ more, hcalls.append hmore⟩

end Quiet

end Station
end CanTransport
