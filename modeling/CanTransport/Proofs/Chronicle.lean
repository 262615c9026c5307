import CanTransport.Station.Control
import CanTransport.Station.Scheduler

/-! # Runs of a station among surroundings of which nothing is known

A lock that is free may be had or not, and one that is held is not had. The clock may show anything,
frames come as they please, and every frame may be accepted or refused. While a station uses its
controller or its clock, and once it has told its listener something, further calls may be made from
within the one in progress; each of them runs to its end. What matters of such a run is kept in
order.
-/
namespace CanTransport

inductive Event
  /-- A request was accepted. -/
  | admitted (id : EndpointId) (address : Address) (message : List UInt8) (kind : MessageType)
  /-- The controller took a frame of this endpoint. -/
  | accepted (writer : EndpointId) (frame : Frame)
  /-- The controller reported an outcome. -/
  | reported (ack : Ack)
  /-- The listener was told something about this endpoint. -/
  | told (source : EndpointId) (notice : Notice)

/-- From one outbox to the other an entry without an outcome has been dropped. -/
def Outbox.givesUp (before after : Outbox) : Bool :=
  decide (after.length < before.length) && decide (after.unresolvedCount < before.unresolvedCount)

def Station.entrants (s s' : Station) : List Handle :=
  s'.active.handles.filter fun h => h.role = .receiver ∧ h ∉ s.active.handles

theorem Station.entrants_eq_nil {s s' : Station}
    (h : ∀ g ∈ s'.active.handles, g.role = .receiver → g ∈ s.active.handles) :
    s.entrants s' = [] := by
  refine List.filter_eq_nil_iff.mpr fun g hg => ?_
  simpa using h g hg

theorem Station.entrants_insert {s s' : Station} {h : Handle} (hr : h.role = .receiver)
    (hnew : h ∉ s.active.handles) (hperm : s'.active.handles.Perm (h :: s.active.handles)) :
    s.entrants s' = [h] := by
  refine List.perm_singleton.mp ((hperm.filter _).trans (.of_eq ?_))
  rw [List.filter_cons_of_pos (by simp [hr, hnew])]
  rw [List.filter_eq_nil_iff.mpr fun h hh => by simp [hh]]

/-- A station, its locks, and what has happened at it so far. -/
structure Scene where
  station : Station
  held : List Lock := []
  events : List Event := []
  /-- The receivers ever admitted to the running conversations, in this order. -/
  opened : List Handle := []
  /-- An entry was dropped before its outcome was reported. -/
  lapsed : Bool := false

namespace Scene

def lock (c : Scene) (lock : Lock) : Scene := { c with held := lock :: c.held }

def unlock (c : Scene) (lock : Lock) : Scene := { c with held := c.held.erase lock }

def note (c : Scene) (event : Event) : Scene := { c with events := c.events ++ [event] }

def access (c : Scene) (change : Station → Station) : Scene :=
  { c with
    station := change c.station
    opened := c.opened ++ c.station.entrants (change c.station)
    lapsed := c.lapsed || Outbox.givesUp c.station.outbox (change c.station).outbox }

theorem opened_of_stay {c : Scene} {change : Station → Station}
    (h : ∀ g ∈ (change c.station).active.handles, g.role = .receiver →
      g ∈ c.station.active.handles) :
    (c.access change).opened = c.opened := by
  change c.opened ++ c.station.entrants (change c.station) = c.opened
  rw [Station.entrants_eq_nil h, List.append_nil]

theorem opened_of_active {c : Scene} {change : Station → Station}
    (h : (change c.station).active = c.station.active) : (c.access change).opened = c.opened :=
  opened_of_stay fun _ hg _ => h ▸ hg

/-- A change of neither the running conversations nor the outbox leaves no record. -/
theorem access_of_same {c : Scene} {change : Station → Station}
    (ha : (change c.station).active = c.station.active)
    (ho : (change c.station).outbox = c.station.outbox) :
    c.access change = { c with station := change c.station } := by
  have hnone := Station.entrants_eq_nil fun g hg _ => ha ▸ hg
  simp [access, hnone, Outbox.givesUp, ho]

/-- What may be seen and come about when a program asks `q`. Calls from within it go by `inner`. -/
def Answers (inner : Scene → Scene → Prop) : (q : Query) → Scene → q.Answer → Scene → Prop
  | .acquire lock, c, had, c' =>
    had = true ∧ lock ∉ c.held ∧ c' = c.lock lock ∨ had = false ∧ c' = c
  | .release lock, c, _, c' => c' = c.unlock lock
  | .access change, c, before, c' => before = c.station ∧ c' = c.access change
  | .now, c, _, c' | .isActive, c, _, c' | .available, c, _, c' | .read, c, _, c' => inner c c'
  | .write writer frame, c, accepted, c' =>
    ∃ c₁, inner c c₁ ∧ c' = if accepted then c₁.note (.accepted writer frame) else c₁
  | .outcome, c, ack, c' =>
    ∃ c₁, inner c c₁ ∧ c' = match ack with
      | some ack => c₁.note (.reported ack)
      | none => c₁
  | .notify source notice, c, _, c' => inner (c.note (.told source notice)) c'

theorem Answers.mono {inner inner' : Scene → Scene → Prop} (hi : ∀ c c', inner c c' → inner' c c')
    {q : Query} {c c' : Scene} {a : q.Answer} (h : c.Answers inner q a c') :
    c.Answers inner' q a c' := by
  cases q with
  | acquire | release | access => exact h
  | now | isActive | available | read => exact hi _ _ h
  | write | outcome =>
    obtain ⟨c₁, hin, h⟩ := h
    exact ⟨c₁, hi _ _ hin, h⟩
  | notify => exact hi _ _ h

/-- Surroundings that oblige: locks are had if they are free, the clock stands still, no frame
comes, and every frame is accepted and its success reported. -/
def oblige : (q : Query) → Scene → q.Answer × Scene
  | .acquire lock, c => if lock ∈ c.held then (false, c) else (true, c.lock lock)
  | .release lock, c => ((), c.unlock lock)
  | .access change, c => (c.station, c.access change)
  | .now, c => (0, c)
  | .isActive, c => (true, c)
  | .available, c => (0, c)
  | .read, c => (none, c)
  | .write writer frame, c => (true, c.note (.accepted writer frame))
  | .outcome, c =>
    if 0 < c.station.outbox.unresolvedCount then (some .success, c.note (.reported .success)) else
      (none, c)
  | .notify source notice, c => ((), c.note (.told source notice))

end Scene

/-- From `c` the program may end with value `a` in `c'`. -/
def Program.Ends {α : Type} (inner : Scene → Scene → Prop) : Action α → Scene → α → Scene → Prop
  | .done value, c, a, c' => a = value ∧ c' = c
  | .ask q next, c, a, c' =>
    ∃ answer c₁, c.Answers inner q answer c₁ ∧ (next answer).Ends inner c₁ a c'

namespace Action
variable {α β : Type} {inner : Scene → Scene → Prop} {c c' : Scene}

theorem ends_bind {p : Action α} {f : α → Action β} {b : β} :
    (p.bind f).Ends inner c b c' ↔ ∃ a c₁, p.Ends inner c a c₁ ∧ (f a).Ends inner c₁ b c' := by
  induction p generalizing c with
  | done value =>
    constructor
    · intro h
      exact ⟨value, c, ⟨rfl, rfl⟩, h⟩
    · rintro ⟨a, c₁, ⟨rfl, rfl⟩, h⟩
      exact h
  | ask q next ih =>
    constructor
    · rintro ⟨answer, c₁, ha, h⟩
      obtain ⟨a, c₂, hp, hf⟩ := (ih answer).mp h
      exact ⟨a, c₂, ⟨answer, c₁, ha, hp⟩, hf⟩
    · rintro ⟨a, c₂, ⟨answer, c₁, ha, hp⟩, hf⟩
      exact ⟨answer, c₁, ha, (ih answer).mpr ⟨a, c₂, hp, hf⟩⟩

theorem ends_ask {q : Query} {f : q.Answer → α} {a : α} :
    (Program.ask q fun answer => .done (f answer) : Action α).Ends inner c a c' ↔
      ∃ answer, a = f answer ∧ c.Answers inner q answer c' := by
  constructor
  · rintro ⟨answer, c₁, ha, rfl, rfl⟩
    exact ⟨answer, rfl, ha⟩
  · rintro ⟨answer, rfl, ha⟩
    exact ⟨answer, c', ha, rfl, rfl⟩

theorem ends_modify {change : Station → Station} {a : Unit} :
    (modify change).Ends inner c a c' ↔ c' = c.access change :=
  ends_ask.trans ⟨fun ⟨_, _, _, h⟩ => h, fun h => ⟨c.station, rfl, rfl, h⟩⟩

theorem ends_modifyGet {change : Station → α × Station} {a : α} :
    (modifyGet change).Ends inner c a c' ↔
      a = (change c.station).1 ∧ c' = c.access fun s => (change s).2 := by
  refine ends_ask.trans ⟨?_, ?_⟩
  · rintro ⟨_, rfl, rfl, h⟩
    exact ⟨rfl, h⟩
  · rintro ⟨rfl, h⟩
    exact ⟨c.station, rfl, rfl, h⟩

theorem access_id (c : Scene) : c.access id = c :=
  Scene.access_of_same rfl rfl

theorem ends_get {a : Station} : get.Ends inner c a c' ↔ a = c.station ∧ c' = c := by
  refine ends_ask.trans ⟨?_, ?_⟩
  · rintro ⟨_, rfl, rfl, h⟩
    exact ⟨rfl, h.trans (access_id c)⟩
  · rintro ⟨rfl, h⟩
    exact ⟨_, rfl, rfl, h.trans (access_id c).symm⟩

/-- A body under a lock runs with the lock held, or not at all. -/
theorem ends_withLock {lock : Lock} {body : Action α} {a : Except LockTimeout α} :
    (withLock lock body).Ends inner c a c' ↔
      a = .error .expired ∧ c' = c ∨
        lock ∉ c.held ∧ ∃ b c₁, body.Ends inner (c.lock lock) b c₁ ∧ a = .ok b ∧
        c' = c₁.unlock lock := by
  unfold withLock
  simp only [Program.bind_eq, Program.pure_eq]
  rw [ends_bind]
  constructor
  · rintro ⟨had, c₁, hl, h⟩
    obtain ⟨had, rfl, hl⟩ := ends_ask.mp hl
    rcases hl with ⟨rfl, hfree, rfl⟩ | ⟨rfl, rfl⟩
    · obtain ⟨b, c₂, hb, h⟩ := ends_bind.mp h
      obtain ⟨_, c₃, hr, rfl, rfl⟩ := ends_bind.mp h
      obtain ⟨_, _, rfl⟩ := ends_ask.mp hr
      exact .inr ⟨hfree, b, c₂, hb, rfl, rfl⟩
    · exact .inl h
  · rintro (⟨rfl, rfl⟩ | ⟨hfree, b, c₁, hb, rfl, rfl⟩)
    · exact ⟨false, c', ends_ask.mpr ⟨false, rfl, .inr ⟨rfl, rfl⟩⟩, rfl, rfl⟩
    · refine ⟨true, c.lock lock, ends_ask.mpr ⟨true, rfl, .inl ⟨rfl, hfree, rfl⟩⟩, ?_⟩
      exact ends_bind.mpr ⟨b, c₁, hb, ends_bind.mpr ⟨(), _, ends_ask.mpr ⟨(), rfl, rfl⟩, rfl, rfl⟩⟩

theorem ends_run {answer : (q : Query) → Scene → q.Answer × Scene}
    (h : ∀ q (c : Scene), c.Answers inner q (answer q c).1 (answer q c).2)
    (p : Action α) (c : Scene) :
    p.Ends inner c (p.run answer c).1 (p.run answer c).2 := by
  induction p generalizing c with
  | done value => exact ⟨rfl, rfl⟩
  | ask q next ih => exact ⟨_, _, h q c, ih _ _⟩

end Action

namespace Station

/-- The calls that can change a station. -/
inductive Call
  | request (target : UInt8) (type : TargetType) (message : List UInt8) (kind : MessageType)
  | tickIfDue
  | pacedTick
  | settle
  | setSource (source : UInt8)
  | addGroup (group : UInt8)
  | removeGroup (group : UInt8)
  | setBlockSize (blockSize : UInt8)
  | setSeparation (separation : SeparationTime)

def admission (s : Station) (target : UInt8) (type : TargetType) (message : List UInt8)
    (kind : MessageType) :
    Except RequestError EndpointId → List Event
  | .ok id => [.admitted id (.ofParts type target s.settings.source) message kind]
  | .error _ => []

/-- The call, made in `c`, may end in `c'`. -/
def Call.Ends (inner : Scene → Scene → Prop) : Call → Scene → Scene → Prop
  | .request target type message kind, c, c' =>
    ∃ answer c₁, (Station.request target type message kind).Ends inner c answer c₁ ∧
      c' = { c₁ with events := c₁.events ++ c.station.admission target type message kind answer }
  | .tickIfDue, c, c' => ∃ a, Station.tickIfDue.Ends inner c a c'
  | .pacedTick, c, c' => ∃ a, Station.pacedTick.Ends inner c a c'
  | .settle, c, c' => ∃ a, Station.settle.Ends inner c a c'
  | .setSource source, c, c' => ∃ a, (Station.setSource source).Ends inner c a c'
  | .addGroup group, c, c' => ∃ a, (Station.addGroup group).Ends inner c a c'
  | .removeGroup group, c, c' => ∃ a, (Station.removeGroup group).Ends inner c a c'
  | .setBlockSize blockSize, c, c' => ∃ a, (Station.setBlockSize blockSize).Ends inner c a c'
  | .setSeparation separation, c, c' => ∃ a, (Station.setSeparation separation).Ends inner c a c'

def Calls (inner : Scene → Scene → Prop) : List Call → Scene → Scene → Prop
  | [], c, c' => c' = c
  | call :: rest, c, c' => ∃ c₁, call.Ends inner c c₁ ∧ Calls inner rest c₁ c'

/-- Any number of calls, nested less than `depth` deep. -/
def Episode : Nat → Scene → Scene → Prop
  | 0, c, c' => c' = c
  | depth + 1, c, c' => ∃ calls, Calls (Episode depth) calls c c'

/-- The station may come to `c` with no call in progress. -/
def Reaches (config : Config) (c : Scene) : Prop :=
  ∃ s depth, ofConfig config = .ok s ∧ Episode depth { station := s } c

theorem answers_oblige (q : Query) (c : Scene) :
    c.Answers (Episode 0) q (Scene.oblige q c).1 (Scene.oblige q c).2 := by
  cases q with
  | acquire lock =>
    unfold Scene.oblige
    dsimp only
    split
    · exact .inr ⟨rfl, rfl⟩
    · next hfree => exact .inl ⟨rfl, hfree, rfl⟩
  | release lock => rfl
  | access change => exact ⟨rfl, rfl⟩
  | now | isActive | available | read => rfl
  | write writer frame => exact ⟨c, rfl, rfl⟩
  | outcome =>
    unfold Scene.oblige
    dsimp only
    split
    · exact ⟨c, rfl, rfl⟩
    · exact ⟨c, rfl, rfl⟩
  | notify source notice => rfl

def Call.perform : Call → Scene → Scene
  | .request target type message kind, c =>
    let (answer, c₁) := (Station.request target type message kind).run Scene.oblige c
    { c₁ with events := c₁.events ++ c.station.admission target type message kind answer }
  | .tickIfDue, c => (Station.tickIfDue.run Scene.oblige c).2
  | .pacedTick, c => (Station.pacedTick.run Scene.oblige c).2
  | .settle, c => (Station.settle.run Scene.oblige c).2
  | .setSource source, c => ((Station.setSource source).run Scene.oblige c).2
  | .addGroup group, c => ((Station.addGroup group).run Scene.oblige c).2
  | .removeGroup group, c => ((Station.removeGroup group).run Scene.oblige c).2
  | .setBlockSize blockSize, c => ((Station.setBlockSize blockSize).run Scene.oblige c).2
  | .setSeparation separation, c => ((Station.setSeparation separation).run Scene.oblige c).2

theorem ends_perform (call : Call) (c : Scene) : call.Ends (Episode 0) c (call.perform c) := by
  cases call with
  | request target type message kind => exact ⟨_, _, Action.ends_run answers_oblige _ c, rfl⟩
  | tickIfDue | pacedTick | settle => exact ⟨_, Action.ends_run answers_oblige _ c⟩
  | setSource | addGroup | removeGroup => exact ⟨_, Action.ends_run answers_oblige _ c⟩
  | setBlockSize | setSeparation => exact ⟨_, Action.ends_run answers_oblige _ c⟩

/-- What calls come to among surroundings that oblige is come to. -/
theorem reaches_perform {config : Config} {s : Station} (hs : ofConfig config = .ok s)
    (calls : List Call) :
    Reaches config (calls.foldl (fun c call => call.perform c) { station := s }) := by
  have hcalls : ∀ (calls : List Call) (c : Scene),
      Calls (Episode 0) calls c (calls.foldl (fun c call => call.perform c) c) := by
    intro calls
    induction calls with
    | nil => exact fun c => rfl
    | cons call rest ih => exact fun c => ⟨call.perform c, ends_perform call c, ih _⟩
  exact ⟨s, 1, hs, calls, hcalls calls _⟩

end Station
end CanTransport
